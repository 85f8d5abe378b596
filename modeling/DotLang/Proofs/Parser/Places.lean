import DotLang.Proofs.Parser.Limit
import DotLang.Proofs.Token.Places

/-
  This file proves that every diagnostic of the parser has the
  place of a token, and says which of them are shown where they
  are: all but those behind the text.

  Key definitions include:
    * `Parser.StandsAt`
    * `Parser.Stays`
    * `Parser.IsDiagnosed`

  Key theorems include:
    * `Parser.IsComposed.stays`
    * `Parser.stays_block`
    * `Parser.isIn_of_isDiagnosed`
    * `Parser.isShown_iff_of_isDiagnosed`
-/

------------------------------------------------------------
-- Steps between Places
------------------------------------------------------------

namespace DotLang

namespace Parser

variable {IsPlace : Location → Prop}

/- What the parser has in front of it and what it has kept is at
  such places. -/
structure StandsAt
    (IsPlace : Location → Prop)
    (p : Parser) : Prop where
  tokens : ∀ t ∈ p.stream.tokens, IsPlace t.location
  finish : IsPlace p.stream.finish
  kept : ∀ d ∈ p.diagnostics, IsPlace d.location

theorem StandsAt.location
    {p : Parser}
    (h : p.StandsAt IsPlace) :
    IsPlace p.stream.location := by
  unfold TokenStream.location
  split
  · exact h.finish
  · next t rest hTokens =>
      exact h.tokens t (by rw [hTokens]; exact List.mem_cons_self)

theorem StandsAt.facing
    {p : Parser}
    {tokens : List Located}
    (h : p.StandsAt IsPlace)
    (hTokens : tokens ⊆ p.stream.tokens) :
    (p.facing tokens).StandsAt IsPlace where
  tokens t hMem := h.tokens t (hTokens hMem)
  finish := h.finish
  kept := h.kept

theorem StandsAt.keeping
    {p : Parser}
    {d : Diagnostic}
    (h : p.StandsAt IsPlace)
    (hPlace : IsPlace d.location) :
    (p.keeping d).StandsAt IsPlace where
  tokens := h.tokens
  finish := h.finish
  kept := by
    intro other hMem
    rcases List.mem_append.mp hMem with hMem | hMem
    · exact h.kept other hMem
    · rwa [List.mem_singleton.mp hMem]

theorem location_unexpected
    (s : TokenStream)
    (allowed : Expectation) :
    (s.unexpected allowed).location = s.location := by
  unfold TokenStream.unexpected
  cases s.current <;> rfl

/- A step from such places to such places, also where it fails. -/
def Stays
    {α : Type}
    (IsPlace : Location → Prop)
    (step : Step α) : Prop :=
  ∀ p,
    p.StandsAt IsPlace →
      match step p with
      | .ok _ q => q.StandsAt IsPlace
      | .error d q => q.StandsAt IsPlace ∧ IsPlace d.location

section

variable {α β : Type} {step : Step α}

theorem Stays.of_ok
    (h : Stays IsPlace step)
    {p q : Parser}
    {a : α}
    (hStands : p.StandsAt IsPlace)
    (hStep : step p = .ok a q) :
    q.StandsAt IsPlace := by
  have hStays := h p hStands
  rw [hStep] at hStays
  exact hStays

theorem Stays.of_error
    (h : Stays IsPlace step)
    {p q : Parser}
    {d : Diagnostic}
    (hStands : p.StandsAt IsPlace)
    (hStep : step p = .error d q) :
    q.StandsAt IsPlace ∧ IsPlace d.location := by
  have hStays := h p hStands
  rw [hStep] at hStays
  exact hStays

theorem stays_pure
    (a : α) :
    Stays IsPlace (pure a) :=
  fun _ hStands => hStands

theorem stays_take : Stays IsPlace take :=
  fun p hStands => hStands.facing (List.tail_subset p.stream.tokens)

theorem stays_unexpected
    (allowed : Expectation) :
    Stays IsPlace (unexpected allowed : Step α) := by
  intro p hStands
  refine ⟨hStands, ?_⟩
  rw [location_unexpected]
  exact hStands.location

theorem Stays.bind
    {second : α → Step β}
    (h : Stays IsPlace step)
    (h' : ∀ a, Stays IsPlace (second a)) :
    Stays IsPlace (step >>= second) := by
  intro p hStands
  rw [bind_apply]
  cases hStep : step p with
  | ok a q => exact h' a q (h.of_ok hStands hStep)
  | error d q => exact h.of_error hStands hStep

theorem stays_expect
    (mark : Symbol) :
    Stays IsPlace (expect mark) := by
  intro p hStands
  rw [expect_apply]
  by_cases hCurrent : p.current = .symbol mark
  · rw [if_pos hCurrent]
    exact hStands.facing (List.tail_subset p.stream.tokens)
  · rw [if_neg hCurrent]
    refine ⟨hStands, ?_⟩
    rw [location_unexpected]
    exact hStands.location

/- Compositions stay where the step for blocks does. -/
theorem IsComposed.stays
    {inner : Step (List Stmt)}
    {step : Step α}
    (h : IsComposed inner step)
    (hInner : Stays IsPlace inner) :
    Stays IsPlace step := by
  induction h with
  | pure a => exact stays_pure a
  | take => exact stays_take
  | unexpected allowed => exact stays_unexpected allowed
  | portAssigned => exact fun p hStands => ⟨hStands, hStands.location⟩
  | look hStep hStream ih =>
      exact fun p hStands => ih p p hStands
  | bind hFirst hSecond ihFirst ihSecond =>
      exact ihFirst.bind ihSecond
  | braced => exact (stays_expect _).bind fun _ => hInner

end

------------------------------------------------------------
-- Broken Statements
------------------------------------------------------------

theorem stays_synchronize : Stays IsPlace synchronize := by
  intro p hStands
  rw [synchronize_apply]
  cases hSkip : skipBroken 0 p.stream.tokens with
  | some rest =>
      exact hStands.facing (skipBroken_suffix hSkip).subset
  | none =>
      refine ⟨hStands.facing (List.nil_subset _), ?_⟩
      rw [location_unexpected]
      exact hStands.finish

theorem stays_recover
    {d : Diagnostic}
    (hPlace : IsPlace d.location) :
    Stays IsPlace (recover d) := by
  intro p hStands
  have hKeeping := hStands.keeping hPlace
  rw [recover_apply]
  by_cases hMax : p.maxErrors < p.diagnostics.length + 1
  · rw [if_pos hMax]
    exact ⟨hKeeping, hKeeping.location⟩
  · rw [if_neg hMax]
    exact stays_synchronize _ hKeeping

theorem stays_stmtOrRecover
    {inner : Step (List Stmt)}
    (hInner : Stays IsPlace inner) :
    Stays IsPlace (stmtOrRecover inner) := by
  intro p hStands
  have hStmt : Stays IsPlace (stmt inner) :=
    isComposed_stmt.stays hInner
  rw [stmtOrRecover_apply]
  cases hResult : stmt inner p with
  | ok parsed q => exact hStmt.of_ok hStands hResult
  | error d q =>
      have hError := hStmt.of_error hStands hResult
      cases hFatal : d.isFatal with
      | true => simpa [hFatal] using hError
      | false =>
          have hRecover := stays_recover hError.2
          simp only [hFatal, Bool.false_eq_true, if_false]
          cases hLast : recover d q with
          | ok u r => exact hRecover.of_ok hError.1 hLast
          | error e r => exact hRecover.of_error hError.1 hLast

theorem stays_block
    (bound : Nat) :
    Stays IsPlace (block bound) := by
  induction bound with
  | zero => exact stays_unexpected _
  | succ bound ih =>
      have hPeek : Stays IsPlace peek := fun _ hStands => hStands
      refine hPeek.bind fun current => ?_
      split
      · exact stays_take.bind fun _ => ih
      · exact stays_take.bind fun _ => stays_pure _
      · exact stays_unexpected _
      · refine (stays_stmtOrRecover ih).bind fun parsed => ?_
        exact ih.bind fun _ => stays_pure _

theorem stays_wholeBlock : Stays IsPlace wholeBlock :=
  fun p => stays_block p.bound p

theorem stays_file : Stays IsPlace file :=
  isComposed_file.stays stays_wholeBlock

------------------------------------------------------------
-- Diagnostics of a Text
------------------------------------------------------------

/-
  The diagnostic ends the reading of the text, or it is kept on
  the way.
-/
def IsDiagnosed
    (text : List Char)
    (options : Options)
    (d : Diagnostic) : Prop :=
  (∃ p, file (ofText text options) = .error d p) ∨
    d ∈ Parser.kept (file (ofText text options))

instance
    {α : Type}
    (result : EStateM.Result Diagnostic Parser α)
    (d : Diagnostic) :
    Decidable (∃ p, result = .error d p) :=
  match result with
  | .ok _ _ => isFalse fun ⟨_, h⟩ => nomatch h
  | .error e p =>
      if h : e = d then
        isTrue ⟨p, h ▸ rfl⟩
      else
        isFalse fun ⟨_, hError⟩ =>
          h (EStateM.Result.error.inj hError).1

instance
    (text : List Char)
    (options : Options)
    (d : Diagnostic) :
    Decidable (IsDiagnosed text options d) :=
  inferInstanceAs (Decidable (_ ∨ _))

theorem standsAt_ofText
    (text : List Char)
    (options : Options) :
    (ofText text options).StandsAt (Location.IsIn text) where
  tokens := by
    intro t hMem
    rcases List.mem_cons.mp hMem with rfl | hMem
    · exact (Cursor.isIn_start text).location
    · exact isIn_of_mem_tokens hMem
  finish := isIn_finish text
  kept d hMem := by cases hMem

/- Each diagnostic of a text has a place in that text. -/
theorem isIn_of_isDiagnosed
    {text : List Char}
    {options : Options}
    {d : Diagnostic}
    (h : IsDiagnosed text options d) :
    d.location.IsIn text := by
  have hStands := standsAt_ofText text options
  rcases h with ⟨p, hFile⟩ | hKept
  · exact (stays_file.of_error hStands hFile).2
  · cases hFile : file (ofText text options) with
    | ok decls p =>
        rw [hFile] at hKept
        exact (stays_file.of_ok hStands hFile).kept d hKept
    | error e p =>
        rw [hFile] at hKept
        exact (stays_file.of_error hStands hFile).1.kept d hKept

/-
  A diagnostic has a line and, unless the text is empty, a
  column.  The excerpt shows just these, unless the diagnostic
  stands behind a text that does not end with an empty line.
-/
theorem isShown_iff_of_isDiagnosed
    {text : List Char}
    {options : Options}
    {d : Diagnostic}
    (h : IsDiagnosed text options d) :
    1 ≤ d.location.line ∧
      (1 ≤ d.location.column ↔ text ≠ []) ∧
      (d.location.IsShown text ↔
        d.location ≠ .behind text ∨
          text = ['\n'] ∨ ['\n', '\n'] <:+ text) := by
  rcases isIn_of_isDiagnosed h with ⟨i, hIndex, hPlace⟩ | ⟨hPlace, _⟩
  · have hShown := Location.isShown_ofIndex hIndex
    have hSome : text ≠ [] := by
      rintro rfl
      cases hIndex
    have hOther := Location.ofIndex_ne_behind hIndex
    rw [hPlace]
    exact ⟨hShown.1, iff_of_true hShown.2.1 hSome,
      iff_of_true hShown (Or.inl hOther)⟩
  · have hShown := Location.isShown_behind_iff text
    rw [hPlace]
    refine ⟨Nat.le_add_left _ _, ?_, ?_⟩
    · by_cases hNil : text = [] <;> simp [Location.behind, hNil]
    · rw [hShown]
      simp

/- A value is missing on the second of three lines. -/
theorem isShown_of_missing_value :
    IsDiagnosed "graph \x7b\n a = ;\n\x7d".toList {}
        ⟨.grammatical, "Expected value after assignment, found ';'",
          ⟨2, 6, 14⟩⟩ ∧
      Location.IsShown ⟨2, 6, 14⟩ "graph \x7b\n a = ;\n\x7d".toList := by
  have hKept :
      IsDiagnosed "graph \x7b\n a = ;\n\x7d".toList {}
        ⟨.grammatical, "Expected value after assignment, found ';'",
          ⟨2, 6, 14⟩⟩ := by
    decide +kernel
  refine ⟨hKept, ?_⟩
  refine (isShown_iff_of_isDiagnosed hKept).2.2.mpr (Or.inl ?_)
  decide

/-
  The end of a text behind its last open brace: the message
  names column 8, and the marker stands under column 7.
-/
theorem not_isShown_of_open_graph :
    IsDiagnosed "graph \x7b".toList {}
        ⟨.unexpectedEnd, "Expected '\x7d', found end of file",
          ⟨1, 8, 7⟩⟩ ∧
      excerpt "graph \x7b".toList 7 = "graph \x7b\n      ^" ∧
      ¬ Location.IsShown ⟨1, 8, 7⟩ "graph \x7b".toList := by
  have hBehind :
      (⟨1, 8, 7⟩ : Location) = .behind "graph \x7b".toList := by
    decide
  refine ⟨by decide +kernel, by decide, ?_⟩
  rw [hBehind, Location.isShown_behind_iff]
  decide

end Parser

end DotLang
