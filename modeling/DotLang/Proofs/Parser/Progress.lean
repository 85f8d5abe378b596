import DotLang.Proofs.Parser.Composition
import Mathlib.Data.List.Infix

/-
  This file proves what every step of the parser has in common.
  Tokens are only ever taken from the front, the diagnostics
  that are kept are those of broken statements, and a step that
  fails says why in terms of the text.

  Key definitions include:
    * `Parser.Precedes`
    * `Parser.IsForward`

  Key theorems include:
    * `Parser.IsComposed.isForward`
    * `Parser.isForward_stmt`
    * `Parser.isForward_block`
    * `Parser.isForward_file`
-/

------------------------------------------------------------
-- Forward Steps
------------------------------------------------------------

namespace DotLang

/- Problems of a statement, which the parser can leave behind. -/
def Diagnostic.IsOfStatement (d : Diagnostic) : Prop :=
  d.kind = .lexical ∨ d.kind = .grammatical

/- Problems that a parser can run into. -/
def Diagnostic.IsOfParser (d : Diagnostic) : Prop :=
  d.IsOfStatement ∨
    d.kind = .unexpectedEnd ∨ d.kind = .tooManyErrors

namespace Parser

/- The second parser is where the first one may get to. -/
structure Precedes (p q : Parser) : Prop where
  tokens : q.stream.tokens <:+ p.stream.tokens
  maxErrors : q.maxErrors = p.maxErrors
  diagnostics :
    ∃ kept,
      q.diagnostics = p.diagnostics ++ kept ∧
        ∀ d ∈ kept, d.IsOfStatement

theorem Precedes.refl
    (p : Parser) :
    p.Precedes p where
  tokens := List.suffix_rfl
  maxErrors := rfl
  diagnostics := ⟨[], by simp, by simp⟩

theorem Precedes.trans
    {p q r : Parser}
    (h : p.Precedes q)
    (h' : q.Precedes r) :
    p.Precedes r := by
  rcases h.diagnostics with ⟨first, hFirst, hAll⟩
  rcases h'.diagnostics with ⟨second, hSecond, hAll'⟩
  refine ⟨h'.tokens.trans h.tokens,
    h'.maxErrors.trans h.maxErrors, first ++ second, ?_, ?_⟩
  · rw [hSecond, hFirst, List.append_assoc]
  · intro d hMem
    rcases List.mem_append.mp hMem with hMem | hMem
    · exact hAll d hMem
    · exact hAll' d hMem

theorem precedes_facing
    {p : Parser}
    {tokens : List Located}
    (h : tokens <:+ p.stream.tokens) :
    p.Precedes (p.facing tokens) where
  tokens := h
  maxErrors := rfl
  diagnostics := ⟨[], by simp [facing], by simp⟩

theorem Read.precedes
    {p q : Parser}
    {tokens : List Located}
    (h : p.Read tokens q) :
    p.Precedes q where
  tokens := ⟨tokens, h.tokens_eq.symm⟩
  maxErrors := by rw [h, facing]
  diagnostics := ⟨[], by simp [h.diagnostics_eq], by simp⟩

/- Nothing was kept when nothing is kept in the end. -/
theorem Precedes.diagnostics_eq
    {p q r : Parser}
    (h : p.Precedes q)
    (h' : q.Precedes r)
    (hEnd : r.diagnostics = p.diagnostics) :
    q.diagnostics = p.diagnostics ∧
      r.diagnostics = q.diagnostics := by
  rcases h.diagnostics with ⟨first, hFirst, _⟩
  rcases h'.diagnostics with ⟨second, hSecond, _⟩
  rw [hSecond, hFirst, List.append_assoc, List.append_right_eq_self,
    List.append_eq_nil_iff] at hEnd
  rcases hEnd with ⟨rfl, rfl⟩
  simp_all

/- A step that goes forward, also where it fails. -/
def IsForward {α : Type} (step : Step α) : Prop :=
  ∀ p,
    match step p with
    | .ok _ q => p.Precedes q
    | .error d q => p.Precedes q ∧ d.IsOfParser

section

variable {α β : Type} {step : Step α}

theorem IsForward.of_ok
    (h : IsForward step)
    {p q : Parser}
    {a : α}
    (hStep : step p = .ok a q) :
    p.Precedes q := by
  have hForward := h p
  rw [hStep] at hForward
  exact hForward

theorem IsForward.of_error
    (h : IsForward step)
    {p q : Parser}
    {d : Diagnostic}
    (hStep : step p = .error d q) :
    p.Precedes q ∧ d.IsOfParser := by
  have hForward := h p
  rw [hStep] at hForward
  exact hForward

theorem isForward_pure
    (a : α) :
    IsForward (pure a) :=
  fun p => Precedes.refl p

theorem IsForward.bind
    {second : α → Step β}
    (h : IsForward step)
    (h' : ∀ a, IsForward (second a)) :
    IsForward (step >>= second) := by
  intro p
  rw [bind_apply]
  cases hStep : step p with
  | error d q => exact h.of_error hStep
  | ok a q =>
      have hFirst := h.of_ok hStep
      show match second a q with
        | .ok _ r => p.Precedes r
        | .error d r => p.Precedes r ∧ d.IsOfParser
      cases hSecond : second a q with
      | ok b r => exact hFirst.trans ((h' a).of_ok hSecond)
      | error d r =>
          have hRest := (h' a).of_error hSecond
          exact ⟨hFirst.trans hRest.1, hRest.2⟩

theorem IsForward.map
    (f : α → β)
    (h : IsForward step) :
    IsForward (f <$> step) := by
  intro p
  rw [map_apply]
  cases hStep : step p with
  | ok a q => exact h.of_ok hStep
  | error d q => exact h.of_error hStep

/- A repeated step goes forward if the step does. -/
theorem IsForward.many
    {step : Step (Option α)}
    (h : IsForward step)
    (bound : Nat) :
    IsForward (many step bound) := by
  induction bound with
  | zero => exact isForward_pure _
  | succ bound ih =>
      refine h.bind fun first => ?_
      cases first with
      | none => exact isForward_pure _
      | some first => exact ih.bind fun _ => isForward_pure _

end

------------------------------------------------------------
-- Single Tokens
------------------------------------------------------------

theorem isForward_get : IsForward get :=
  fun p => Precedes.refl p

theorem isForward_peek : IsForward peek :=
  fun p => Precedes.refl p

theorem isForward_take : IsForward take :=
  fun _ => precedes_facing (List.tail_suffix _)

theorem isOfParser_unexpected
    (s : TokenStream)
    (allowed : Expectation) :
    (s.unexpected allowed).IsOfParser := by
  unfold TokenStream.unexpected Diagnostic.IsOfParser
    Diagnostic.IsOfStatement
  cases s.current <;> simp

theorem isForward_unexpected
    {α : Type}
    (allowed : Expectation) :
    IsForward (unexpected allowed : Step α) :=
  fun p => ⟨Precedes.refl p, isOfParser_unexpected _ _⟩

theorem isForward_expect
    (mark : Symbol) :
    IsForward (expect mark) := by
  refine isForward_peek.bind fun current => ?_
  split
  · exact isForward_take.bind fun _ => isForward_pure _
  · exact isForward_unexpected _

theorem isForward_portAssigned :
    IsForward
      (do throw (← get).portAssigned : Step Stmt) :=
  fun p => ⟨Precedes.refl p, Or.inl (Or.inr rfl)⟩

/-
  Compositions go forward if the step for the blocks inside
  them does.
-/
theorem IsComposed.isForward
    {α : Type}
    {inner : Step (List Stmt)}
    {step : Step α}
    (h : IsComposed inner step)
    (hInner : IsForward inner) :
    IsForward step := by
  induction h with
  | pure a => exact isForward_pure a
  | take => exact isForward_take
  | unexpected allowed => exact isForward_unexpected allowed
  | portAssigned => exact isForward_portAssigned
  | look hStep hStream ih => exact isForward_get.bind ih
  | bind hFirst hSecond ihFirst ihSecond =>
      exact ihFirst.bind ihSecond
  | braced =>
      exact (isForward_expect _).bind fun _ => hInner

/- Rules without blocks go forward whatever a block is. -/
theorem IsComposed.isForward_plain
    {α : Type}
    {step : Step α}
    (h : IsComposed (Pure.pure []) step) :
    IsForward step :=
  h.isForward (isForward_pure [])

theorem isForward_accept
    (token : Token) :
    IsForward (accept token) :=
  (isComposed_accept token).isForward_plain

theorem isForward_acceptName : IsForward acceptName :=
  isComposed_acceptName.isForward_plain

theorem isForward_expectName
    (allowed : Expectation) :
    IsForward (expectName allowed) :=
  (isComposed_expectName allowed).isForward_plain

theorem isForward_expectValue : IsForward expectValue :=
  isComposed_expectValue.isForward_plain

------------------------------------------------------------
-- Recovery
------------------------------------------------------------

/- Broken statements are skipped from the front. -/
theorem skipBroken_suffix
    {depth : Nat}
    {tokens rest : List Located}
    (h : skipBroken depth tokens = some rest) :
    rest <:+ tokens := by
  induction tokens generalizing depth with
  | nil => cases h
  | cons t tokens ih =>
      unfold skipBroken at h
      split at h
      · split at h
        · cases h
          exact List.suffix_cons _ _
        · exact (ih h).trans (List.suffix_cons _ _)
      · exact (ih h).trans (List.suffix_cons _ _)
      · split at h
        · cases h
          exact List.suffix_rfl
        · exact (ih h).trans (List.suffix_cons _ _)
      · exact (ih h).trans (List.suffix_cons _ _)

theorem synchronize_apply
    (p : Parser) :
    synchronize p =
      match skipBroken 0 p.stream.tokens with
      | some rest => .ok () (p.facing rest)
      | none =>
          .error
            ((p.facing []).stream.unexpected (.symbol .closeBrace))
            (p.facing []) := by
  simp only [synchronize, bind_apply, get_apply]
  cases skipBroken 0 p.stream.tokens <;> rfl

theorem isForward_synchronize : IsForward synchronize := by
  intro p
  rw [synchronize_apply]
  cases hSkip : skipBroken 0 p.stream.tokens with
  | some rest => exact precedes_facing (skipBroken_suffix hSkip)
  | none =>
      exact ⟨precedes_facing (List.nil_suffix),
        isOfParser_unexpected _ _⟩

/- The parser that keeps one more diagnostic. -/
def keeping
    (p : Parser)
    (d : Diagnostic) : Parser :=
  { p with diagnostics := p.diagnostics ++ [d] }

theorem recover_apply
    (d : Diagnostic)
    (p : Parser) :
    recover d p =
      if p.maxErrors < p.diagnostics.length + 1 then
        .error (p.keeping d).tooManyErrors (p.keeping d)
      else
        synchronize (p.keeping d) := by
  have hModify :
      (modify fun p =>
        { p with diagnostics := p.diagnostics ++ [d] } :
          Step Unit) p = .ok () (p.keeping d) := rfl
  rw [recover, bind_apply, hModify]
  simp only [bind_apply, get_apply]
  have hLength :
      (p.keeping d).diagnostics.length =
        p.diagnostics.length + 1 := by
    simp [keeping]
  have hMax : (p.keeping d).maxErrors = p.maxErrors := rfl
  rw [hLength, hMax]
  split <;> rfl

/- Where a parser goes on that leaves a broken statement. -/
theorem recover_eq_ok
    {d : Diagnostic}
    {p q : Parser}
    {u : Unit}
    (h : recover d p = .ok u q) :
    p.diagnostics.length < p.maxErrors ∧
      ∃ rest,
        skipBroken 0 p.stream.tokens = some rest ∧
          q = (p.keeping d).facing rest := by
  rw [recover_apply] at h
  split at h
  · cases h
  · rename_i hMax
    rw [synchronize_apply] at h
    have hTokens :
        (p.keeping d).stream.tokens = p.stream.tokens := rfl
    rw [hTokens] at h
    cases hSkip : skipBroken 0 p.stream.tokens with
    | none =>
        rw [hSkip] at h
        cases h
    | some rest =>
        rw [hSkip] at h
        cases h
        exact ⟨Nat.lt_of_succ_le (Nat.le_of_not_lt hMax), rest,
          rfl, rfl⟩

theorem isOfStatement_of_not_fatal
    {d : Diagnostic}
    (hParser : d.IsOfParser)
    (hFatal : d.isFatal = false) :
    d.IsOfStatement := by
  rcases hParser with hOf | hEnd | hMany
  · exact hOf
  · rw [Diagnostic.isFatal, hEnd] at hFatal
    cases hFatal
  · rw [Diagnostic.isFatal, hMany] at hFatal
    cases hFatal

/-
  A broken statement is left behind if its diagnostic is not
  fatal, which then is one of a statement.
-/
theorem isForward_recover
    {d : Diagnostic}
    (hParser : d.IsOfParser)
    (hFatal : d.isFatal = false) :
    IsForward (recover d) := by
  intro p
  have hKeeping : p.Precedes (p.keeping d) := by
    refine ⟨List.suffix_rfl, rfl, [d], rfl, ?_⟩
    intro other hMem
    rw [List.mem_singleton.mp hMem]
    exact isOfStatement_of_not_fatal hParser hFatal
  rw [recover_apply]
  by_cases hMax : p.maxErrors < p.diagnostics.length + 1
  · rw [if_pos hMax]
    exact ⟨hKeeping, Or.inr (Or.inr rfl)⟩
  · rw [if_neg hMax]
    cases hSync : synchronize (p.keeping d) with
    | ok u q =>
        exact hKeeping.trans (isForward_synchronize.of_ok hSync)
    | error e q =>
        have hError := isForward_synchronize.of_error hSync
        exact ⟨hKeeping.trans hError.1, hError.2⟩

------------------------------------------------------------
-- Mentions and Attributes
------------------------------------------------------------

theorem isForward_nodeRef : IsForward nodeRef :=
  isComposed_nodeRef.isForward_plain

theorem isForward_listedAttribute : IsForward listedAttribute :=
  isComposed_listedAttribute.isForward_plain

theorem isForward_attributeList : IsForward attributeList :=
  isComposed_attributeList.isForward_plain

theorem isForward_anotherList : IsForward anotherList :=
  isComposed_anotherList.isForward_plain

theorem isForward_attributeLists : IsForward attributeLists :=
  isComposed_attributeLists.isForward_plain

theorem isForward_optionalLists : IsForward optionalLists :=
  isComposed_optionalLists.isForward_plain

theorem isForward_assignment
    (ref : NodeRef) :
    IsForward (assignment ref) :=
  (isComposed_assignment ref).isForward_plain

------------------------------------------------------------
-- Statements
------------------------------------------------------------

section

variable {inner : Step (List Stmt)}

theorem isForward_subgraph
    (hInner : IsForward inner) :
    IsForward (subgraph inner) :=
  isComposed_subgraph.isForward hInner

theorem isForward_endpoint
    (hInner : IsForward inner) :
    IsForward (endpoint inner) :=
  isComposed_endpoint.isForward hInner

theorem isForward_edgeStep
    (hInner : IsForward inner) :
    IsForward (edgeStep inner) :=
  isComposed_edgeStep.isForward hInner

theorem isForward_edgeStmt
    (hInner : IsForward inner)
    (tail : Endpoint) :
    IsForward (edgeStmt inner tail) :=
  (isComposed_edgeStmt tail).isForward hInner

theorem isForward_stmt
    (hInner : IsForward inner) :
    IsForward (stmt inner) :=
  isComposed_stmt.isForward hInner

/- What a statement is that may be broken. -/
theorem stmtOrRecover_apply
    (p : Parser) :
    stmtOrRecover inner p =
      match stmt inner p with
      | .ok parsed q => .ok (some parsed) q
      | .error d q =>
          if d.isFatal then
            .error d q
          else
            match recover d q with
            | .ok _ r => .ok none r
            | .error e r => .error e r := by
  rw [stmtOrRecover]
  cases hStmt : stmt inner p with
  | ok parsed q => rfl
  | error d q =>
      simp only [seqRight_pure_apply]
      cases recover d q <;> rfl

theorem isForward_stmtOrRecover
    (hInner : IsForward inner) :
    IsForward (stmtOrRecover inner) := by
  intro p
  rw [stmtOrRecover_apply]
  cases hStmt : stmt inner p with
  | ok parsed q => exact (isForward_stmt hInner).of_ok hStmt
  | error d q =>
      have hError := (isForward_stmt hInner).of_error hStmt
      cases hFatal : d.isFatal with
      | true => simpa [hFatal] using hError
      | false =>
          have hRecover := isForward_recover hError.2 hFatal
          simp only [hFatal, Bool.false_eq_true, if_false]
          cases hResult : recover d q with
          | ok u r => exact hError.1.trans (hRecover.of_ok hResult)
          | error e r =>
              have hSecond := hRecover.of_error hResult
              exact ⟨hError.1.trans hSecond.1, hSecond.2⟩

end

/- Blocks go forward because the blocks inside them do. -/
theorem isForward_block
    (bound : Nat) :
    IsForward (block bound) := by
  induction bound with
  | zero => exact isForward_unexpected _
  | succ bound ih =>
      refine isForward_peek.bind fun current => ?_
      split
      · exact isForward_take.bind fun _ => ih
      · exact isForward_take.bind fun _ => isForward_pure _
      · exact isForward_unexpected _
      · refine (isForward_stmtOrRecover ih).bind fun parsed => ?_
        exact ih.bind fun _ => isForward_pure _

theorem isForward_wholeBlock : IsForward wholeBlock :=
  isForward_get.bind fun _ => isForward_block _

------------------------------------------------------------
-- Graphs
------------------------------------------------------------

theorem isForward_graphKind : IsForward graphKind :=
  isComposed_graphKind.isForward_plain

theorem isForward_graph : IsForward graph :=
  isComposed_graph.isForward isForward_wholeBlock

theorem isForward_anotherGraph : IsForward anotherGraph :=
  isComposed_anotherGraph.isForward isForward_wholeBlock

theorem isForward_file : IsForward file :=
  isComposed_file.isForward isForward_wholeBlock

/- A file that is read has a graph. -/
theorem ne_nil_of_file_eq_ok
    {p q : Parser}
    {decls : List GraphDecl}
    (h : file p = .ok decls q) :
    decls ≠ [] := by
  rcases bind_eq_ok.mp h with ⟨_, _, -, h⟩
  rcases bind_eq_ok.mp h with ⟨_, _, -, h⟩
  rcases bind_eq_ok.mp h with ⟨graphs, r, -, h⟩
  split at h
  · cases h
  · rename_i hSome
    cases h
    rintro rfl
    exact hSome rfl

end Parser

end DotLang
