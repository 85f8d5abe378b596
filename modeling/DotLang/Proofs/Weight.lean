import DotLang.AttributeTable.Typed
import Mathlib.Algebra.Order.Field.Rat
import Mathlib.Algebra.Order.Ring.Cast

/-
  This file defines the exact values of numbers and weights, and
  proves that numbers are ordered by their values.

  Key definitions include:
    * `Binary64.toRat?`
    * `AttributeTable.exactWeight`

  Key theorems include:
    * `AttributeTable.exactWeight_le_of_rank_le`
-/

------------------------------------------------------------
-- Exact Values
------------------------------------------------------------

namespace DotLang

namespace Binary64

/- The exact value of a number, if it is finite. -/
def toRat? : Binary64 → Option ℚ
| finite negative units => some ((signed negative units : ℚ) / one)
| _ => none

theorem one_pos : 0 < one := by
  decide +kernel

theorem signed_le_of_rank_le
    {s t : Bool}
    {m n : Nat}
    (h : (finite s m).rank ≤ (finite t n).rank) :
    signed s m ≤ signed t n := by
  cases s <;> cases t <;> simp [rank, signed] at h ⊢ <;> omega

end Binary64

namespace AttributeTable

/-
  The exact weight of an edge with these attributes, which is one
  if the weight is missing, no number, or not finite.
-/
def exactWeight (t : AttributeTable) : ℚ :=
  ((t.real? weightName).bind Binary64.toRat?).getD 1

/- The weight of an edge is always a finite number. -/
theorem exists_weight_eq
    (t : AttributeTable) :
    ∃ s m,
      t.weight = .finite s m ∧
        t.exactWeight =
          (Binary64.signed s m : ℚ) / Binary64.one := by
  have hDefault :
      (1 : ℚ) =
        (Binary64.signed false Binary64.one : ℚ) / Binary64.one :=
    (div_self (Nat.cast_ne_zero.mpr Binary64.one_pos.ne')).symm
  unfold weight exactWeight
  cases t.real? weightName with
  | none => exact ⟨false, Binary64.one, rfl, hDefault⟩
  | some w =>
      cases w with
      | finite s m => exact ⟨s, m, rfl, rfl⟩
      | infinite s => exact ⟨false, Binary64.one, rfl, hDefault⟩
      | undefined => exact ⟨false, Binary64.one, rfl, hDefault⟩

theorem exactWeight_le_of_rank_le
    {t u : AttributeTable}
    (h : t.weight.rank ≤ u.weight.rank) :
    t.exactWeight ≤ u.exactWeight := by
  rcases t.exists_weight_eq with ⟨s, m, hT, hExactT⟩
  rcases u.exists_weight_eq with ⟨s', n, hU, hExactU⟩
  rw [hT, hU] at h
  rw [hExactT, hExactU]
  have hLe := Binary64.signed_le_of_rank_le h
  exact div_le_div_of_nonneg_right (Int.cast_le.mpr hLe)
    (Nat.cast_nonneg _)

end AttributeTable

end DotLang
