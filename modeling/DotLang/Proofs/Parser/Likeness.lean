import DotLang.Proofs.Parser.Braces

/-
  This file compares the rules of the grammar for two ways to
  read the blocks inside statements.  It says where a rule runs
  the step for these blocks, and that the rule takes no brace
  but the one in front of it.

  What is shown for all such steps holds of every rule, and what
  blocks have in common is shared by the rules that hold them.

  Key definitions include:
    * `Parser.Alike`

  Key theorems include:
    * `Parser.alike_stmt`
    * `Parser.Alike.run`
    * `Parser.Alike.eq_of_inner`
-/

------------------------------------------------------------
-- Steps inside a Block
------------------------------------------------------------

namespace DotLang

namespace Parser

/- The token that is next is not the end unless none is left. -/
theorem exists_cons_of_current
    {p : Parser}
    (h : p.current ≠ .endOfFile) :
    ∃ t rest, p.stream.tokens = t :: rest ∧ p.current = t.token := by
  cases hTokens : p.stream.tokens with
  | nil =>
      refine absurd ?_ h
      rw [current, TokenStream.current, hTokens]
  | cons t rest =>
      refine ⟨t, rest, rfl, ?_⟩
      rw [current, TokenStream.current, hTokens]

theorem length_advance_lt
    {p : Parser}
    (hEnd : p.current ≠ .endOfFile) :
    p.advance.stream.tokens.length < p.stream.tokens.length := by
  rcases exists_cons_of_current hEnd with ⟨t, rest, hTokens, _⟩
  simp [advance, TokenStream.advance, hTokens]

/-
  Steps from a parser that differ in the inner steps they run on
  blocks only, each behind its opening brace.  Other braces and
  the end of the file are not taken.
-/
inductive Alike
    (inner inner' : Step (List Stmt)) :
    {α : Type} → Step α → Step α → Parser → Prop where
| pure
    {α : Type}
    {p : Parser}
    (a : α) :
    Alike inner inner' (Pure.pure a) (Pure.pure a) p
| get
    {p : Parser} :
    Alike inner inner' get get p
| take
    {p : Parser}
    (hEnd : p.current ≠ .endOfFile)
    (hPlain : IsPlain p.current) :
    Alike inner inner' take take p
| unexpected
    {α : Type}
    {p : Parser}
    (allowed : Expectation) :
    Alike inner inner' (unexpected allowed : Step α)
      (unexpected allowed) p
| portAssigned
    {p : Parser} :
    Alike inner inner'
      (do throw (← MonadState.get).portAssigned : Step Stmt)
      (do throw (← MonadState.get).portAssigned) p
| bind
    {α β : Type}
    {first first' : Step α}
    {second second' : α → Step β}
    {p : Parser}
    (hFirst : Alike inner inner' first first' p)
    (hSecond :
      ∀ a q,
        first p = .ok a q →
          Alike inner inner' (second a) (second' a) q) :
    Alike inner inner' (first >>= second) (first' >>= second') p
| braced
    {p : Parser} :
    Alike inner inner'
      (expect .openBrace >>= fun _ => inner)
      (expect .openBrace >>= fun _ => inner') p

section

variable {α β : Type} {inner inner' : Step (List Stmt)} {p : Parser}

/- What is made of a block depends on how it is read as well. -/
theorem Alike.block
    {next next' : List Stmt → Step α}
    (h : ∀ body q, Alike inner inner' (next body) (next' body) q) :
    Alike inner inner'
      (expect .openBrace >>= fun _ => inner >>= next)
      (expect .openBrace >>= fun _ => inner' >>= next') p := by
  have hAll :=
    Alike.braced.bind (p := p) fun body q _ => h body q
  rwa [bind_assoc, bind_assoc] at hAll

theorem Alike.many
    {step step' : Step (Option α)}
    (h : ∀ p, Alike inner inner' step step' p)
    (bound : Nat) :
    ∀ p,
      Alike inner inner' (many step bound) (many step' bound) p := by
  induction bound with
  | zero => exact fun _ => .pure _
  | succ bound ih =>
      refine fun p => (h p).bind fun first q _ => ?_
      cases first with
      | none => exact .pure _
      | some first => exact (ih q).bind fun _ _ _ => .pure _

/- Looking at the next token tells what it is. -/
theorem alike_peek
    {next next' : Token → Step β}
    (h : Alike inner inner' (next p.current) (next' p.current) p) :
    Alike inner inner' (peek >>= next) (peek >>= next') p := by
  have hPeek : Alike inner inner' peek peek p :=
    Alike.get.bind fun _ _ _ => .pure _
  refine hPeek.bind fun token q hStep => ?_
  cases hStep
  exact h

/- A token that is known to be no brace is taken. -/
theorem alike_take
    {token : Token}
    {next next' : Token → Step β}
    (hCurrent : p.current = token)
    (hEnd : token ≠ .endOfFile)
    (hPlain : IsPlain token)
    (h :
      ∀ q, Alike inner inner' (next token) (next' token) q) :
    Alike inner inner' (take >>= next) (take >>= next') p := by
  subst hCurrent
  refine (Alike.take hEnd hPlain).bind fun _ q hStep => ?_
  cases hStep
  exact h _

------------------------------------------------------------
-- Single Tokens
------------------------------------------------------------

theorem alike_accept
    {token : Token}
    (hEnd : token ≠ .endOfFile)
    (hPlain : IsPlain token) :
    Alike inner inner' (accept token) (accept token) p := by
  refine alike_peek ?_
  split
  · rename_i hCurrent
    exact alike_take hCurrent hEnd hPlain fun _ => .pure _
  · exact .pure _

theorem alike_expect
    {mark : Symbol}
    (hPlain : IsPlain (.symbol mark)) :
    Alike inner inner' (expect mark) (expect mark) p := by
  refine alike_peek ?_
  split
  · rename_i hCurrent
    exact alike_take hCurrent (by simp) hPlain fun _ => .pure _
  · exact .unexpected _

theorem alike_acceptName :
    Alike inner inner' acceptName acceptName p := by
  refine alike_peek ?_
  split
  · rename_i hCurrent
    exact alike_take hCurrent (by simp) (by simp [IsPlain])
      fun _ => .pure _
  · exact .pure _

theorem alike_expectName
    (allowed : Expectation) :
    Alike inner inner' (expectName allowed) (expectName allowed)
      p := by
  refine alike_peek ?_
  split
  · rename_i hCurrent
    exact alike_take hCurrent (by simp) (by simp [IsPlain])
      fun _ => .pure _
  · exact .unexpected _

theorem alike_expectValue :
    Alike inner inner' expectValue expectValue p := by
  refine alike_peek ?_
  split
  · rename_i hCurrent
    exact alike_take hCurrent (by simp) (by simp [IsPlain])
      fun _ => .pure _
  · rename_i hCurrent
    exact alike_take hCurrent (by simp) (by simp [IsPlain])
      fun _ => .pure _
  · exact .unexpected _

------------------------------------------------------------
-- Mentions and Attributes
------------------------------------------------------------

theorem alike_nodeRef : Alike inner inner' nodeRef nodeRef p := by
  have hColon (q : Parser) :
      Alike inner inner' (accept (.symbol .colon))
        (accept (.symbol .colon)) q :=
    alike_accept (by simp) (by simp [IsPlain])
  refine (alike_expectName _).bind fun name q _ => ?_
  refine (hColon q).bind fun hasPort q _ => ?_
  split
  · refine (alike_expectName _).bind fun port q _ => ?_
    refine (hColon q).bind fun hasCompass q _ => ?_
    split
    · exact (alike_expectName _).bind fun _ _ _ => .pure _
    · exact .pure _
  · exact .pure _

theorem alike_listedAttribute :
    Alike inner inner' listedAttribute listedAttribute p := by
  refine alike_peek ?_
  split
  · exact .pure _
  · refine (alike_expectName _).bind fun name _ _ => ?_
    refine (alike_expect (by simp [IsPlain])).bind fun _ _ _ => ?_
    refine alike_expectValue.bind fun value _ _ => ?_
    refine (alike_accept (by simp) (by simp [IsPlain])).bind
      fun _ _ _ => ?_
    exact (alike_accept (by simp) (by simp [IsPlain])).bind
      fun _ _ _ => .pure _

theorem alike_attributeList :
    Alike inner inner' attributeList attributeList p := by
  refine (alike_expect (by simp [IsPlain])).bind fun _ _ _ => ?_
  refine Alike.get.bind fun r _ _ => ?_
  refine (Alike.many (fun _ => alike_listedAttribute) _ _).bind
    fun attributes _ _ => ?_
  exact (alike_expect (by simp [IsPlain])).bind fun _ _ _ => .pure _

theorem alike_anotherList :
    Alike inner inner' anotherList anotherList p := by
  refine alike_peek ?_
  split
  · exact alike_attributeList.bind fun _ _ _ => .pure _
  · exact .pure _

theorem alike_attributeLists :
    Alike inner inner' attributeLists attributeLists p := by
  refine alike_attributeList.bind fun first _ _ => ?_
  refine Alike.get.bind fun r _ _ => ?_
  exact (Alike.many (fun _ => alike_anotherList) _ _).bind
    fun _ _ _ => .pure _

theorem alike_optionalLists :
    Alike inner inner' optionalLists optionalLists p := by
  refine alike_peek ?_
  split
  · exact alike_attributeLists
  · exact .pure _

theorem alike_assignment
    (ref : NodeRef) :
    Alike inner inner' (assignment ref) (assignment ref) p := by
  unfold assignment
  split
  · exact .portAssigned
  · refine (alike_expect (by simp [IsPlain])).bind fun _ _ _ => ?_
    exact alike_expectValue.bind fun _ _ _ => .pure _

------------------------------------------------------------
-- Statements
------------------------------------------------------------

theorem alike_subgraph :
    Alike inner inner' (subgraph inner) (subgraph inner') p := by
  refine (alike_accept (by simp) (by simp [IsPlain])).bind
    fun hasKeyword _ _ => ?_
  split
  · refine alike_acceptName.bind fun name _ _ => ?_
    exact .block fun _ _ => .pure _
  · exact .block fun _ _ => .pure _

theorem alike_endpoint :
    Alike inner inner' (endpoint inner) (endpoint inner') p := by
  refine alike_peek ?_
  split
  · exact alike_nodeRef.bind fun _ _ _ => .pure _
  · exact alike_subgraph.bind fun _ _ _ => .pure _
  · exact alike_subgraph.bind fun _ _ _ => .pure _
  · exact .unexpected _

theorem arrowOf?_eq_some
    {token : Token}
    {arrow : Arrow}
    (h : arrowOf? token = some arrow) :
    token = .symbol .arrow ∨ token = .symbol .line := by
  unfold arrowOf? at h
  split at h
  · exact Or.inl rfl
  · exact Or.inr rfl
  · cases h

theorem alike_edgeStep :
    Alike inner inner' (edgeStep inner) (edgeStep inner') p := by
  refine alike_peek ?_
  cases hArrow : arrowOf? p.current with
  | none => exact .pure _
  | some arrow =>
      refine Alike.get.bind fun r q hGet => ?_
      cases hGet
      have hNext (s : Parser) :
          Alike inner inner'
            (do
              let head ← endpoint inner
              return some (EdgeStep.mk arrow p.stream.location head))
            (do
              let head ← endpoint inner'
              return some (EdgeStep.mk arrow p.stream.location head)) s :=
        alike_endpoint.bind fun _ _ _ => .pure _
      rcases arrowOf?_eq_some hArrow with hSymbol | hSymbol <;>
        exact alike_take hSymbol (by simp) (by simp [IsPlain]) hNext

theorem alike_edgeStmt
    (tail : Endpoint) :
    Alike inner inner' (edgeStmt inner tail) (edgeStmt inner' tail)
      p := by
  refine Alike.get.bind fun r _ _ => ?_
  refine (Alike.many (fun _ => alike_edgeStep) _ _).bind
    fun steps _ _ => ?_
  exact alike_optionalLists.bind fun _ _ _ => .pure _

theorem alike_namedStmt :
    Alike inner inner' (namedStmt inner) (namedStmt inner') p := by
  refine alike_nodeRef.bind fun ref q _ => ?_
  refine alike_peek ?_
  split
  · exact alike_edgeStmt _
  · exact alike_edgeStmt _
  · exact alike_assignment _
  · exact alike_optionalLists.bind fun _ _ _ => .pure _

theorem alike_subgraphStmt :
    Alike inner inner' (subgraphStmt inner) (subgraphStmt inner')
      p := by
  refine alike_subgraph.bind fun tree q _ => ?_
  refine alike_peek ?_
  split
  · exact alike_edgeStmt _
  · exact .pure _

theorem alike_defaultsStmt
    {word : Keyword}
    (kind : EntityKind)
    (hCurrent : p.current = .keyword word) :
    Alike inner inner' (defaultsStmt kind) (defaultsStmt kind) p :=
  alike_take hCurrent (by simp) (by simp [IsPlain]) fun _ =>
    alike_attributeLists.bind fun _ _ _ => .pure _

/- Statements are alike but for the blocks inside them. -/
theorem alike_stmt :
    Alike inner inner' (stmt inner) (stmt inner') p := by
  refine alike_peek ?_
  split
  · exact alike_namedStmt
  · exact alike_subgraphStmt
  · exact alike_subgraphStmt
  · rename_i hCurrent
    exact alike_defaultsStmt .graph hCurrent
  · rename_i hCurrent
    exact alike_defaultsStmt .node hCurrent
  · rename_i hCurrent
    exact alike_defaultsStmt .edge hCurrent
  · exact .unexpected _

------------------------------------------------------------
-- Runs
------------------------------------------------------------

variable {step step' : Step α} {R : Parser → Parser → Prop}

/-
  Where a step gets to, for a relation that tokens other than
  braces and whole blocks keep.  A step that fails does so where
  it stands or inside a block.
-/
theorem Alike.run
    (h : Alike inner inner' step step' p)
    (hRefl : ∀ r, R r r)
    (hTrans : ∀ {r s t}, R r s → R s t → R r t)
    (hTake :
      ∀ r : Parser,
        r.current ≠ .endOfFile → IsPlain r.current → R r r.advance)
    (hBlock :
      ∀ r body s,
        R p r →
          r.current = .symbol .openBrace →
          inner r.advance = .ok body s →
            R r s) :
    match step p with
    | .ok _ q => R p q
    | .error d q =>
        (R p q ∧
            ((∃ allowed, d = q.stream.unexpected allowed) ∨
              d = q.portAssigned)) ∨
          ∃ r,
            R p r ∧
              r.current = .symbol .openBrace ∧
              inner r.advance = .error d q := by
  induction h with
  | pure a => exact hRefl _
  | get => exact hRefl _
  | take hEnd hPlain => exact hTake _ hEnd hPlain
  | unexpected allowed => exact .inl ⟨hRefl _, .inl ⟨allowed, rfl⟩⟩
  | portAssigned => exact .inl ⟨hRefl _, .inr rfl⟩
  | @bind _ _ first _ second _ p _ _ ihFirst ihSecond =>
      have hFirst := ihFirst hBlock
      rw [bind_apply]
      cases hStep : first p with
      | error d q =>
          rw [hStep] at hFirst
          exact hFirst
      | ok a q =>
          rw [hStep] at hFirst
          have hPQ : R p q := hFirst
          have hSecond := ihSecond a q hStep
            fun r body s hQR => hBlock r body s (hTrans hPQ hQR)
          dsimp only
          cases hNext : second a q with
          | ok b s =>
              rw [hNext] at hSecond
              exact hTrans hPQ hSecond
          | error d s =>
              rw [hNext] at hSecond
              rcases hSecond with ⟨hQS, hCause⟩ | ⟨r, hQR, hInner⟩
              · exact .inl ⟨hTrans hPQ hQS, hCause⟩
              · exact .inr ⟨r, hTrans hPQ hQR, hInner⟩
  | @braced p =>
      rw [bind_apply, expect_apply]
      by_cases hOpen : p.current = .symbol .openBrace
      · rw [if_pos hOpen]
        dsimp only
        cases hInner : inner p.advance with
        | ok body q => exact hBlock p body q (hRefl p) hOpen hInner
        | error d q => exact .inr ⟨p, hRefl p, hOpen, hInner⟩
      · rw [if_neg hOpen]
        exact .inl ⟨hRefl p, .inl ⟨_, rfl⟩⟩

/- No step puts tokens back unless the inner one does. -/
theorem Alike.length_le
    (h : Alike inner inner' step step' p)
    (hInner : IsForward inner)
    {a : α}
    {q : Parser}
    (hStep : step p = .ok a q) :
    q.stream.tokens.length ≤ p.stream.tokens.length := by
  have hRun := h.run
    (R := fun r s =>
      s.stream.tokens.length ≤ r.stream.tokens.length)
    (fun r => Nat.le_refl _)
    (fun hRS hST => hST.trans hRS)
    (fun r _ _ => (isForward_take.of_ok (take_apply r)).tokens.length_le)
    (fun r body s _ _ hBody =>
      ((isForward_take.of_ok (take_apply r)).trans
        (hInner.of_ok hBody)).tokens.length_le)
  rw [hStep] at hRun
  exact hRun

/-
  Alike steps do the same if the inner steps do so for fewer
  tokens.
-/
theorem Alike.eq_of_inner
    (h : Alike inner inner' step step' p)
    (hForward : IsForward inner)
    (hInner :
      ∀ q : Parser,
        q.stream.tokens.length < p.stream.tokens.length →
          inner q = inner' q) :
    step p = step' p := by
  induction h with
  | pure a => rfl
  | get => rfl
  | take hEnd hPlain => rfl
  | unexpected allowed => rfl
  | portAssigned => rfl
  | @bind _ _ first _ _ _ p hFirst _ ihFirst ihSecond =>
      rw [bind_apply, bind_apply, ← ihFirst hInner]
      cases hStep : first p with
      | error d q => rfl
      | ok a q =>
          have hLength := hFirst.length_le hForward hStep
          exact ihSecond a q hStep fun r hLess =>
            hInner r (Nat.lt_of_lt_of_le hLess hLength)
  | @braced p =>
      rw [bind_apply, bind_apply, expect_apply]
      by_cases hOpen : p.current = .symbol .openBrace
      · rw [if_pos hOpen]
        exact hInner _ (length_advance_lt (by simp [hOpen]))
      · rw [if_neg hOpen]

end

end Parser

end DotLang
