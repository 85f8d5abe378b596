import DotLang.Proofs.Grammar.Derivation
import DotLang.Proofs.Parser.Progress

/-
  This file defines what a list of tokens says about blocks by
  its braces alone.

  Braces are balanced in the usual sense, and `afterBlock` finds
  the brace that closes a block by counting.  Skipping a broken
  statement never leaves the block.

  Key definitions include:
    * `afterBlock`
    * `IsBalanced`

  Key theorems include:
    * `afterBlock_add`
    * `afterBlock_skipBroken`
    * `afterBlock_eq_some_iff`
-/

------------------------------------------------------------
-- Closing Braces
------------------------------------------------------------

namespace DotLang

/-
  The tokens behind the brace that closes a block, of which
  `depth` blocks inside are open.
-/
def afterBlock : Nat → List Located → Option (List Located)
| _, [] => none
| depth, t :: rest =>
    match t.token with
    | .symbol .openBrace => afterBlock (depth + 1) rest
    | .symbol .closeBrace =>
        match depth with
        | 0 => some rest
        | depth + 1 => afterBlock depth rest
    | _ => afterBlock depth rest

/- A token that is no brace. -/
def IsPlain (token : Token) : Prop :=
  token ≠ .symbol .openBrace ∧ token ≠ .symbol .closeBrace

theorem afterBlock_open
    {t : Located}
    (depth : Nat)
    (rest : List Located)
    (h : t.token = .symbol .openBrace) :
    afterBlock depth (t :: rest) = afterBlock (depth + 1) rest := by
  rw [afterBlock.eq_def]
  simp only [h]

theorem afterBlock_close_zero
    {t : Located}
    (rest : List Located)
    (h : t.token = .symbol .closeBrace) :
    afterBlock 0 (t :: rest) = some rest := by
  rw [afterBlock, h]

theorem afterBlock_close_succ
    {t : Located}
    (depth : Nat)
    (rest : List Located)
    (h : t.token = .symbol .closeBrace) :
    afterBlock (depth + 1) (t :: rest) = afterBlock depth rest := by
  rw [afterBlock, h]

theorem afterBlock_plain
    {t : Located}
    (depth : Nat)
    (rest : List Located)
    (h : IsPlain t.token) :
    afterBlock depth (t :: rest) = afterBlock depth rest := by
  rw [afterBlock.eq_def]
  dsimp only
  split
  · rename_i hOpen
    exact absurd hOpen h.1
  · rename_i hClose
    exact absurd hClose h.2
  · rfl

/- A token is one of the braces or none. -/
theorem brace_cases
    (token : Token) :
    token = .symbol .openBrace ∨
      token = .symbol .closeBrace ∨ IsPlain token := by
  by_cases hOpen : token = .symbol .openBrace
  · exact Or.inl hOpen
  · by_cases hClose : token = .symbol .closeBrace
    · exact Or.inr (Or.inl hClose)
    · exact Or.inr (Or.inr ⟨hOpen, hClose⟩)

/- The block around an inner one is closed behind it. -/
theorem afterBlock_add
    (inner outer : Nat)
    (tokens : List Located) :
    afterBlock (inner + outer + 1) tokens =
      (afterBlock inner tokens).bind (afterBlock outer) := by
  induction tokens generalizing inner with
  | nil => rfl
  | cons t rest ih =>
      rcases brace_cases t.token with hOpen | hClose | hPlain
      · have hInner := ih (inner + 1)
        rw [Nat.add_right_comm inner 1 outer] at hInner
        rw [afterBlock_open _ _ hOpen, afterBlock_open _ _ hOpen,
          hInner]
      · cases inner with
        | zero =>
            rw [Nat.zero_add, afterBlock_close_succ _ _ hClose,
              afterBlock_close_zero _ hClose]
            rfl
        | succ inner =>
            rw [afterBlock_close_succ _ _ hClose,
              afterBlock_close_succ _ _ hClose,
              Nat.add_right_comm inner 1 outer, ih]
      · rw [afterBlock_plain _ _ hPlain, afterBlock_plain _ _ hPlain,
          ih]

theorem afterBlock_one
    (tokens : List Located) :
    afterBlock 1 tokens =
      (afterBlock 0 tokens).bind (afterBlock 0) :=
  afterBlock_add 0 0 tokens

------------------------------------------------------------
-- Broken Statements
------------------------------------------------------------

/- Behind a broken statement the block is still the same. -/
theorem afterBlock_skipBroken
    (depth : Nat)
    (tokens : List Located) :
    afterBlock depth tokens =
      (Parser.skipBroken depth tokens).bind (afterBlock 0) := by
  induction tokens generalizing depth with
  | nil => rfl
  | cons t rest ih =>
      rw [Parser.skipBroken.eq_def]
      dsimp only
      split
      · rename_i hSemicolon
        rw [afterBlock_plain _ _ (by simp [IsPlain, hSemicolon])]
        split
        · rename_i hDepth
          rw [hDepth]
          rfl
        · exact ih depth
      · rename_i hOpen
        rw [afterBlock_open _ _ hOpen]
        exact ih (depth + 1)
      · rename_i hClose
        split
        · rfl
        · rw [afterBlock_close_succ _ _ hClose]
          exact ih _
      · rename_i hSemicolon hOpen hClose
        rw [afterBlock_plain _ _ ⟨hOpen, hClose⟩]
        exact ih depth

/- Something is skipped unless the block ends at once. -/
theorem length_skipBroken_lt
    {t : Located}
    {tokens rest : List Located}
    (hClose : t.token ≠ .symbol .closeBrace)
    (h : Parser.skipBroken 0 (t :: tokens) = some rest) :
    rest.length < (t :: tokens).length := by
  rw [Parser.skipBroken] at h
  split at h
  · cases h
    exact Nat.lt_succ_self _
  · have hSuffix := Parser.skipBroken_suffix h
    exact Nat.lt_succ_of_le hSuffix.length_le
  · rename_i hToken
    exact absurd hToken hClose
  · have hSuffix := Parser.skipBroken_suffix h
    exact Nat.lt_succ_of_le hSuffix.length_le

------------------------------------------------------------
-- Balanced Braces
------------------------------------------------------------

/- How many blocks a list of tokens opens. -/
def openings (tokens : List Located) : Nat :=
  tokens.countP (·.token = .symbol .openBrace)

/- How many blocks a list of tokens closes. -/
def closings (tokens : List Located) : Nat :=
  tokens.countP (·.token = .symbol .closeBrace)

/-
  No part from the front closes more blocks than it opens, and
  the whole closes as many.
-/
def IsBalanced (tokens : List Located) : Prop :=
  (∀ front, front <+: tokens → closings front ≤ openings front) ∧
    closings tokens = openings tokens

/-
  Likewise for tokens in front of which `depth` blocks are open
  that they close.
-/
def Closes
    (depth : Nat)
    (tokens : List Located) : Prop :=
  (∀ front,
      front <+: tokens →
        closings front ≤ openings front + depth) ∧
    closings tokens = openings tokens + depth

theorem closes_nil : Closes 0 [] := by
  refine ⟨?_, rfl⟩
  intro front hFront
  rw [List.prefix_nil.mp hFront]
  exact Nat.zero_le _

/- What is said of all fronts, said of those of a longer list. -/
theorem forall_front_cons
    {t : Located}
    {tokens : List Located}
    {P : List Located → Prop}
    (hNil : P []) :
    (∀ front, front <+: t :: tokens → P front) ↔
      ∀ front, front <+: tokens → P (t :: front) := by
  constructor
  · intro h front hFront
    exact h _ (List.cons_prefix_cons.mpr ⟨rfl, hFront⟩)
  · intro h front hFront
    rcases List.prefix_cons_iff.mp hFront with
      rfl | ⟨front, rfl, hFront⟩
    · exact hNil
    · exact h front (List.cons_prefix_cons.mp hFront).2

theorem closes_cons_open
    {t : Located}
    {depth : Nat}
    {tokens : List Located}
    (h : t.token = .symbol .openBrace) :
    Closes depth (t :: tokens) ↔ Closes (depth + 1) tokens := by
  have hOpenings (tokens : List Located) :
      openings (t :: tokens) = openings tokens + 1 := by
    simp [openings, h]
  have hClosings (tokens : List Located) :
      closings (t :: tokens) = closings tokens := by
    simp [closings, h]
  unfold Closes
  rw [forall_front_cons (Nat.zero_le _)]
  simp only [hOpenings, hClosings, Nat.add_assoc,
    Nat.add_comm 1 depth]

theorem closes_cons_close
    {t : Located}
    {depth : Nat}
    {tokens : List Located}
    (h : t.token = .symbol .closeBrace) :
    Closes (depth + 1) (t :: tokens) ↔ Closes depth tokens := by
  have hOpenings (tokens : List Located) :
      openings (t :: tokens) = openings tokens := by
    simp [openings, h]
  have hClosings (tokens : List Located) :
      closings (t :: tokens) = closings tokens + 1 := by
    simp [closings, h]
  unfold Closes
  rw [forall_front_cons (Nat.zero_le _)]
  simp only [hOpenings, hClosings, ← Nat.add_assoc,
    Nat.add_le_add_iff_right, Nat.add_right_cancel_iff]

theorem not_closes_zero_close
    {t : Located}
    {tokens : List Located}
    (h : t.token = .symbol .closeBrace) :
    ¬ Closes 0 (t :: tokens) := by
  intro hCloses
  have hFirst := hCloses.1 [t] (List.prefix_append [t] tokens)
  simp [openings, closings, h] at hFirst

theorem closes_cons_plain
    {t : Located}
    {depth : Nat}
    {tokens : List Located}
    (h : IsPlain t.token) :
    Closes depth (t :: tokens) ↔ Closes depth tokens := by
  have hOpenings (tokens : List Located) :
      openings (t :: tokens) = openings tokens := by
    simp [openings, h.1]
  have hClosings (tokens : List Located) :
      closings (t :: tokens) = closings tokens := by
    simp [closings, h.2]
  unfold Closes
  rw [forall_front_cons (Nat.zero_le _)]
  simp only [hOpenings, hClosings]

/- The brace that closes a block is behind tokens that balance. -/
theorem afterBlock_eq_some_iff
    {depth : Nat}
    {tokens rest : List Located} :
    afterBlock depth tokens = some rest ↔
      ∃ body closing,
        tokens = body ++ Symbol.located .closeBrace closing :: rest ∧
          Closes depth body := by
  constructor
  · intro h
    induction tokens generalizing depth with
    | nil => cases h
    | cons t tokens ih =>
        rcases brace_cases t.token with hOpen | hClose | hPlain
        · rw [afterBlock_open _ _ hOpen] at h
          rcases ih h with ⟨body, closing, rfl, hBody⟩
          exact ⟨t :: body, closing, rfl,
            (closes_cons_open hOpen).mpr hBody⟩
        · cases depth with
          | zero =>
              rw [afterBlock_close_zero _ hClose] at h
              cases h
              refine ⟨[], t.location, ?_, closes_nil⟩
              rcases t with ⟨token, location⟩
              cases hClose
              rfl
          | succ depth =>
              rw [afterBlock_close_succ _ _ hClose] at h
              rcases ih h with ⟨body, closing, rfl, hBody⟩
              exact ⟨t :: body, closing, rfl,
                (closes_cons_close hClose).mpr hBody⟩
        · rw [afterBlock_plain _ _ hPlain] at h
          rcases ih h with ⟨body, closing, rfl, hBody⟩
          exact ⟨t :: body, closing, rfl,
            (closes_cons_plain hPlain).mpr hBody⟩
  · rintro ⟨body, closing, rfl, hBody⟩
    induction body generalizing depth with
    | nil =>
        have hDepth : depth = 0 := by
          simpa [openings, closings] using hBody.2.symm
        subst hDepth
        exact afterBlock_close_zero _ rfl
    | cons t body ih =>
        rw [List.cons_append]
        rcases brace_cases t.token with hOpen | hClose | hPlain
        · rw [afterBlock_open _ _ hOpen]
          exact ih ((closes_cons_open hOpen).mp hBody)
        · cases depth with
          | zero => exact absurd hBody (not_closes_zero_close hClose)
          | succ depth =>
              rw [afterBlock_close_succ _ _ hClose]
              exact ih ((closes_cons_close hClose).mp hBody)
        · rw [afterBlock_plain _ _ hPlain]
          exact ih ((closes_cons_plain hPlain).mp hBody)

end DotLang
