import DotLang.Parser.Grammar

/-
  This file takes parser steps apart: what a step does is said
  by equations on the tokens that are left, and what a sequence
  of steps did is traced back to its parts.

  Key definitions include:
    * `Parser.facing`
    * `Parser.Read`

  Key theorems include:
    * `Parser.bind_eq_ok`
    * `Parser.Read.trans`
    * `Parser.read_advance`
-/

------------------------------------------------------------
-- Parsers at Given Tokens
------------------------------------------------------------

namespace DotLang

/- The token that a list of tokens starts with. -/
def headToken : List Located → Token
| [] => .endOfFile
| t :: _ => t.token

namespace Parser

/- The parser with other tokens left. -/
def facing
    (p : Parser)
    (tokens : List Located) : Parser :=
  { p with stream := { p.stream with tokens := tokens } }

@[simp] theorem stream_facing
    (p : Parser)
    (tokens : List Located) :
    (p.facing tokens).stream =
      { p.stream with tokens := tokens } := rfl

@[simp] theorem facing_facing
    (p : Parser)
    (first second : List Located) :
    (p.facing first).facing second = p.facing second := rfl

@[simp] theorem facing_tokens
    (p : Parser) :
    p.facing p.stream.tokens = p := rfl

@[simp] theorem current_facing
    (p : Parser)
    (tokens : List Located) :
    (p.facing tokens).current = headToken tokens := by
  cases tokens <;> rfl

@[simp] theorem advance_facing
    (p : Parser)
    (tokens : List Located) :
    (p.facing tokens).advance = p.facing tokens.tail := rfl

@[simp] theorem bound_facing
    (p : Parser)
    (tokens : List Located) :
    (p.facing tokens).bound = tokens.length + 1 := rfl

------------------------------------------------------------
-- Sequences of Steps
------------------------------------------------------------

variable {α β : Type}

/- A sequence runs its second step where the first one stops. -/
theorem bind_apply
    (first : Step α)
    (second : α → Step β)
    (p : Parser) :
    (first >>= second) p =
      match first p with
      | .ok a q => second a q
      | .error d q => .error d q := by
  simp only [bind, EStateM.bind]
  cases first p <;> rfl

theorem map_apply
    (f : α → β)
    (step : Step α)
    (p : Parser) :
    (f <$> step) p =
      match step p with
      | .ok a q => .ok (f a) q
      | .error d q => .error d q := by
  simp only [Functor.map, EStateM.map]
  cases step p <;> rfl

theorem pure_apply
    (a : α)
    (p : Parser) :
    (pure a : Step α) p = .ok a p := rfl

theorem seqRight_pure_apply
    (step : Step α)
    (b : β)
    (p : Parser) :
    (step *> pure b) p =
      match step p with
      | .ok _ q => .ok b q
      | .error d q => .error d q := by
  simp only [SeqRight.seqRight, EStateM.seqRight]
  cases step p <;> rfl

theorem get_apply
    (p : Parser) :
    (get : Step Parser) p = .ok p p := rfl

theorem peek_apply
    (p : Parser) :
    peek p = .ok p.current p := rfl

theorem take_apply
    (p : Parser) :
    take p = .ok p.current p.advance := rfl

theorem unexpected_apply
    (allowed : Expectation)
    (p : Parser) :
    (unexpected allowed : Step α) p =
      .error (p.stream.unexpected allowed) p := rfl

theorem accept_apply
    (token : Token)
    (p : Parser) :
    accept token p =
      if p.current = token then
        .ok true p.advance
      else
        .ok false p := by
  simp only [accept, bind_apply, peek_apply]
  split <;> rfl

theorem expect_apply
    (mark : Symbol)
    (p : Parser) :
    expect mark p =
      if p.current = .symbol mark then
        .ok () p.advance
      else
        .error (p.stream.unexpected (.symbol mark)) p := by
  simp only [expect, bind_apply, peek_apply]
  split <;> rfl

theorem acceptName_apply
    (p : Parser) :
    acceptName p =
      match p.current with
      | .identifier name => .ok (some name) p.advance
      | _ => .ok none p := by
  simp only [acceptName, bind_apply, peek_apply]
  cases p.current <;> rfl

theorem expectName_apply
    (allowed : Expectation)
    (p : Parser) :
    expectName allowed p =
      match p.current with
      | .identifier name => .ok name p.advance
      | _ => .error (p.stream.unexpected allowed) p := by
  simp only [expectName, bind_apply, peek_apply]
  cases p.current <;> rfl

theorem expectValue_apply
    (p : Parser) :
    expectValue p =
      match p.current with
      | .identifier text => .ok (.plain text) p.advance
      | .html text => .ok (.html text) p.advance
      | _ => .error (p.stream.unexpected .value) p := by
  simp only [expectValue, bind_apply, peek_apply]
  cases p.current <;> rfl

/- A sequence that succeeds has two steps that succeed. -/
theorem bind_eq_ok
    {first : Step α}
    {second : α → Step β}
    {p r : Parser}
    {b : β} :
    (first >>= second) p = .ok b r ↔
      ∃ a q, first p = .ok a q ∧ second a q = .ok b r := by
  rw [bind_apply]
  cases first p with
  | ok a q =>
      constructor
      · intro h
        exact ⟨a, q, rfl, h⟩
      · rintro ⟨a', q', hFirst, hSecond⟩
        cases hFirst
        exact hSecond
  | error d q => simp

theorem expect_eq_ok
    {mark : Symbol}
    {p q : Parser}
    {u : Unit} :
    expect mark p = .ok u q ↔
      p.current = .symbol mark ∧ p.advance = q := by
  rw [expect_apply]
  split <;> simp_all

theorem expectName_eq_ok
    {allowed : Expectation}
    {p q : Parser}
    {name : String} :
    expectName allowed p = .ok name q ↔
      p.current = .identifier name ∧ p.advance = q := by
  rw [expectName_apply]
  cases p.current <;> simp

/- A repeated step stops where it has nothing more to give. -/
theorem many_apply_none
    {step : Step (Option α)}
    {p q : Parser}
    {bound : Nat}
    (hStep : step p = .ok none q)
    (hBound : 0 < bound) :
    many step bound p = .ok [] q := by
  cases bound with
  | zero => cases hBound
  | succ bound =>
      rw [many, bind_apply, hStep]
      rfl

theorem many_apply_some
    {step : Step (Option α)}
    {p q r : Parser}
    {first : α}
    {others : List α}
    {bound : Nat}
    (hStep : step p = .ok (some first) q)
    (hOthers : many step bound q = .ok others r) :
    many step (bound + 1) p = .ok (first :: others) r := by
  rw [many, bind_apply, hStep]
  simp only [bind_apply, hOthers, pure_apply]

------------------------------------------------------------
-- Rules of the Grammar
------------------------------------------------------------

/- What a statement is that starts with a mention. -/
theorem namedStmt_apply
    (block : Step (List Stmt))
    {p q : Parser}
    {ref : NodeRef}
    (hRef : nodeRef p = .ok ref q) :
    namedStmt block p =
      if arrowOf? q.current ≠ none then
        edgeStmt block (.node ref) q
      else if q.current = .symbol .equal then
        assignment ref q
      else
        (Stmt.node ref <$> optionalLists) q := by
  simp only [namedStmt, bind_apply, hRef, peek_apply]
  cases q.current with
  | symbol mark => cases mark <;> rfl
  | endOfFile => rfl
  | keyword word => rfl
  | identifier name => rfl
  | html text => rfl
  | malformed cause => rfl

/- What a statement is that starts with a subgraph. -/
theorem subgraphStmt_apply
    (block : Step (List Stmt))
    {p q : Parser}
    {tree : String × List Stmt}
    (hTree : subgraph block p = .ok tree q) :
    subgraphStmt block p =
      if arrowOf? q.current ≠ none then
        edgeStmt block (.subgraph tree.1 tree.2) q
      else
        .ok (.subgraph tree.1 tree.2) q := by
  simp only [subgraphStmt, bind_apply, hTree, peek_apply]
  cases arrowOf? q.current with
  | none => rfl
  | some arrow => rfl

/- An edge operator behind an end makes it an edge statement. -/
theorem stmt_apply_of_endpoint
    (block : Step (List Stmt))
    {p q : Parser}
    {tail : Endpoint}
    (hTail : endpoint block p = .ok tail q)
    (hArrow : arrowOf? q.current ≠ none) :
    stmt block p = edgeStmt block tail q := by
  have hNamed
      (hTail : (Endpoint.node <$> nodeRef) p = .ok tail q) :
      namedStmt block p = edgeStmt block tail q := by
    rw [map_apply] at hTail
    cases hRef : nodeRef p with
    | error d r => simp [hRef] at hTail
    | ok ref r =>
        rw [hRef] at hTail
        cases hTail
        rw [namedStmt_apply block hRef, if_pos hArrow]
  have hSubgraph
      (hTail :
        ((fun tree => Endpoint.subgraph tree.1 tree.2) <$>
          subgraph block) p = .ok tail q) :
      subgraphStmt block p = edgeStmt block tail q := by
    rw [map_apply] at hTail
    cases hTree : subgraph block p with
    | error d r => simp [hTree] at hTail
    | ok tree r =>
        rw [hTree] at hTail
        cases hTail
        rw [subgraphStmt_apply block hTree, if_pos hArrow]
  simp only [endpoint, stmt, bind_apply, peek_apply] at hTail ⊢
  cases hCurrent : p.current with
  | identifier name => exact hNamed (by simpa [hCurrent] using hTail)
  | symbol mark =>
      cases mark
      case openBrace =>
        exact hSubgraph (by simpa [hCurrent] using hTail)
      all_goals simp [hCurrent, unexpected_apply] at hTail
  | keyword word =>
      cases word
      case subgraph =>
        exact hSubgraph (by simpa [hCurrent] using hTail)
      all_goals simp [hCurrent, unexpected_apply] at hTail
  | endOfFile => simp [hCurrent, unexpected_apply] at hTail
  | html text => simp [hCurrent, unexpected_apply] at hTail
  | malformed cause => simp [hCurrent, unexpected_apply] at hTail

/- What a block is, by its first token. -/
theorem block_apply
    (bound : Nat)
    (p : Parser) :
    block (bound + 1) p =
      if p.current = .symbol .semicolon then
        block bound p.advance
      else if p.current = .symbol .closeBrace then
        .ok [] p.advance
      else if p.current = .endOfFile then
        .error (p.stream.unexpected (.symbol .closeBrace)) p
      else
        (stmtOrRecover (block bound) >>= fun parsed =>
          (parsed.toList ++ ·) <$> block bound) p := by
  rw [block, bind_apply, peek_apply]
  cases p.current with
  | symbol mark => cases mark <;> rfl
  | endOfFile => rfl
  | keyword word => rfl
  | identifier name => rfl
  | html text => rfl
  | malformed cause => rfl

------------------------------------------------------------
-- Tokens Read
------------------------------------------------------------

/-
  The tokens are what the first parser has in front of the
  second one; nothing else tells them apart.
-/
def Read
    (p : Parser)
    (tokens : List Located)
    (q : Parser) : Prop :=
  p = q.facing (tokens ++ q.stream.tokens)

theorem Read.refl
    (p : Parser) :
    p.Read [] p := rfl

theorem Read.trans
    {p q r : Parser}
    {first second : List Located}
    (h : p.Read first q)
    (h' : q.Read second r) :
    p.Read (first ++ second) r := by
  unfold Read at h h' ⊢
  rw [h, h']
  simp

theorem Read.tokens_eq
    {p q : Parser}
    {tokens : List Located}
    (h : p.Read tokens q) :
    p.stream.tokens = tokens ++ q.stream.tokens := by
  rw [h]
  simp

theorem Read.diagnostics_eq
    {p q : Parser}
    {tokens : List Located}
    (h : p.Read tokens q) :
    q.diagnostics = p.diagnostics := by
  rw [h]
  rfl

/- Moving on reads the token that is next. -/
theorem read_advance
    {p : Parser}
    {token : Token}
    (hCurrent : p.current = token)
    (hToken : token ≠ .endOfFile) :
    p.Read [⟨token, p.stream.location⟩] p.advance := by
  cases hTokens : p.stream.tokens with
  | nil =>
      have hEnd : p.current = .endOfFile := by
        simp [current, TokenStream.current, hTokens]
      exact absurd (hCurrent.symm.trans hEnd) hToken
  | cons t rest =>
      have hHead : t = ⟨token, p.stream.location⟩ := by
        subst hCurrent
        simp [current, TokenStream.current, TokenStream.location,
          hTokens]
      unfold Read
      rw [← hHead]
      simp only [advance, TokenStream.advance, hTokens]
      rw [List.tail_cons, List.singleton_append, ← hTokens]
      rfl

end Parser

end DotLang
