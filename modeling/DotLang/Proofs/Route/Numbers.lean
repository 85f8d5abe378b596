import DotLang.Proofs.Rounding
import DotLang.Proofs.Route.Scale
import DotLang.Proofs.Weight
import Mathlib.Algebra.Order.Monoid.WithTop

/-
  This file proves that routes can be weighed with the numbers of
  the binary64 format, and defines the exact weights of routes.

  Sums of the format are rounded.  They keep the order, and do
  not fall below a cost that is a number of the format itself.

  Key definitions include:
    * `Binary64.IsCost`
    * `Binary64.IsWeight`
    * `AttributeTable.exactFee`

  Key theorems include:
    * `Binary64.isScale`
    * `isScale_exact`
    * `AttributeTable.exists_effectiveWeight`
-/

------------------------------------------------------------
-- Numbers of the Format
------------------------------------------------------------

namespace DotLang

namespace Binary64

/- The value in units, with infinity beyond all others. -/
def amount (x : Binary64) : Int :=
  x.value?.getD 0

/- A number that is not negative. -/
def IsWeight (w : Binary64) : Prop :=
  ∃ m : Nat, w.value? = some (m : Int)

/- A number of the format that is not negative. -/
inductive IsCost : Binary64 → Prop where
| mk
    {n : Nat}
    (hn : n ≤ limit)
    (hNearest : nearest n = n) :
    IsCost (ofUnits n)

/- Less than or equal by value. -/
def AtMost (x y : Binary64) : Prop :=
  ∃ a b, x.value? = some a ∧ y.value? = some b ∧ a ≤ b

theorem amount_eq
    {w : Binary64}
    {m : Nat}
    (hw : w.value? = some (m : Int)) :
    w.amount = m := by
  rw [amount, hw]
  rfl

theorem value?_ofUnits_of_le
    {n : Nat}
    (hn : n ≤ limit) :
    (ofUnits n).value? = some (n : Int) := by
  rw [value?_ofUnits, Nat.min_eq_left hn]

theorem rank_ofUnits
    {n : Nat}
    (hn : n ≤ limit) :
    (ofUnits n).rank = n := by
  unfold ofUnits
  split
  case isTrue hLt => rfl
  case isFalse hGe =>
    exact congrArg Int.ofNat
      (Nat.le_antisymm (Nat.not_lt.mp hGe) hn)

theorem ofUnits_min (n : Nat) :
    ofUnits (min n limit) = ofUnits n := by
  rcases Nat.lt_or_ge n limit with hLt | hGe
  · rw [Nat.min_eq_left hLt.le]
  · rw [Nat.min_eq_right hGe, ofUnits, ofUnits,
      if_neg (Nat.lt_irrefl limit), if_neg (Nat.not_lt.mpr hGe)]

theorem isCost_ofUnits_nearest (n : Nat) :
    IsCost (ofUnits (nearest n)) := by
  rw [← ofUnits_min]
  refine .mk (Nat.min_le_right _ _) ?_
  rcases Nat.le_total (nearest n) limit with hLe | hGe
  · rw [Nat.min_eq_left hLe, nearest_nearest]
  · rw [Nat.min_eq_right hGe, nearest_limit]

theorem IsCost.isWeight
    {x : Binary64}
    (hx : IsCost x) :
    IsWeight x := by
  rcases hx with @⟨n, hn, -⟩
  exact ⟨n, value?_ofUnits_of_le hn⟩

/- A weight is added to a cost. -/
theorem amount_add
    {n m : Nat}
    {w : Binary64}
    (hn : n ≤ limit)
    (hw : w.value? = some (m : Int)) :
    (add (ofUnits n) w).amount =
      ((min (nearest (n + m)) limit : Nat) : Int) := by
  rw [ofUnits_add hn hw, amount, value?_ofUnits]
  rfl

/- Routes can be weighed with numbers of the format. -/
theorem isScale : IsScale amount IsCost IsWeight where
  isCost_zero := by
    have hZero : ofUnits 0 = zero := if_pos limit_pos
    change IsCost zero
    rw [← hZero]
    exact .mk (Nat.zero_le _) nearest_zero
  isWeight_infinite := ⟨limit, rfl⟩
  isWeight := IsCost.isWeight
  isCost_add {x w} hx hw := by
    rcases hx with @⟨n, hn, -⟩
    rcases hw with ⟨m, hm⟩
    change IsCost (add (ofUnits n) w)
    rw [ofUnits_add hn hm]
    exact isCost_ofUnits_nearest _
  lt_iff {x y} hx hy := by
    rcases hx with ⟨m, hm⟩
    rcases hy with ⟨n, hn⟩
    change lt x y = true ↔ _
    rw [lt, hm, hn, amount_eq hm, amount_eq hn]
    exact decide_eq_true_iff
  precedes_iff {x y} hx hy := by
    rcases hx with @⟨m, hm, -⟩
    rcases hy with @⟨n, hn, -⟩
    rw [amount_eq (value?_ofUnits_of_le hm),
      amount_eq (value?_ofUnits_of_le hn), ← rank_ofUnits hm,
      ← rank_ofUnits hn]
    exact decide_eq_true_iff
  zero_le {x} hx := by
    rcases hx.isWeight with ⟨m, hm⟩
    rw [amount_eq hm]
    exact Int.natCast_nonneg m
  le_add {x w} hx hw := by
    rcases hx with @⟨n, hn, hNearest⟩
    rcases hw with ⟨m, hm⟩
    change _ ≤ (add (ofUnits n) w).amount
    rw [amount_eq (value?_ofUnits_of_le hn), amount_add hn hm]
    have hLe := nearest_mono (Nat.le_add_right n m)
    rw [hNearest] at hLe
    exact Int.ofNat_le.mpr (Nat.le_min.mpr ⟨hLe, hn⟩)
  add_le_add {x y w v} hx hy hw hv hCosts hWeights := by
    rcases hx with @⟨n, hn, -⟩
    rcases hy with @⟨n', hn', -⟩
    rcases hw with ⟨m, hm⟩
    rcases hv with ⟨m', hm'⟩
    rw [amount_eq (value?_ofUnits_of_le hn),
      amount_eq (value?_ofUnits_of_le hn')] at hCosts
    rw [amount_eq hm, amount_eq hm'] at hWeights
    change (add (ofUnits n) w).amount ≤ (add (ofUnits n') v).amount
    rw [amount_add hn hm, amount_add hn' hm']
    have hLe := nearest_mono
      (Nat.add_le_add (Int.ofNat_le.mp hCosts)
        (Int.ofNat_le.mp hWeights))
    exact Int.ofNat_le.mpr (min_le_min_right _ hLe)
  add_le_infinite {x w} hx hw := by
    rcases hx with @⟨n, hn, -⟩
    rcases hw with ⟨m, hm⟩
    change (add (ofUnits n) w).amount ≤
      (add (ofUnits n) (infinite false)).amount
    rw [amount_add hn hm, amount_add hn rfl]
    have hLe := nearest_mono (Nat.le_add_left limit n)
    rw [nearest_limit] at hLe
    rw [Nat.min_eq_right hLe]
    exact Int.ofNat_le.mpr (Nat.min_le_right _ _)

theorem atMost_of_amount_le
    {x y : Binary64}
    (hx : IsCost x)
    (hy : IsCost y)
    (hLe : x.amount ≤ y.amount) :
    AtMost x y := by
  rcases hx.isWeight with ⟨m, hm⟩
  rcases hy.isWeight with ⟨n, hn⟩
  rw [amount_eq hm, amount_eq hn] at hLe
  exact ⟨m, n, hm, hn, hLe⟩

theorem AtMost.le
    {x y : Binary64}
    (h : AtMost x y)
    {m n : Nat}
    (hx : x.value? = some (m : Int))
    (hy : y.value? = some (n : Int)) :
    m ≤ n := by
  rcases h with ⟨a, b, ha, hb, hLe⟩
  rw [Option.some.inj (ha.symm.trans hx),
    Option.some.inj (hb.symm.trans hy)] at hLe
  exact Int.ofNat_le.mp hLe

end Binary64

------------------------------------------------------------
-- Exact Numbers
------------------------------------------------------------

instance : Scale (WithTop ℚ) where
  zero := 0
  infinite := ⊤
  add := (· + ·)
  lt x y := x < y
  precedes x y := x < y

/- Routes can be weighed exactly. -/
theorem isScale_exact :
    IsScale (id : WithTop ℚ → WithTop ℚ) (0 ≤ ·) (0 ≤ ·) where
  isCost_zero := le_refl 0
  isWeight_infinite := le_top
  isWeight := id
  isCost_add := add_nonneg
  lt_iff _ _ := decide_eq_true_iff
  precedes_iff _ _ := decide_eq_true_iff
  zero_le := id
  le_add _ hw := le_add_of_nonneg_right hw
  add_le_add _ _ _ _ := add_le_add
  add_le_infinite {x _} _ _ := (le_top).trans (add_top x).ge

namespace AttributeTable

/-
  The exact weight of an edge on a route, which is one if it is
  negative.
-/
def exactFee (t : AttributeTable) : ℚ :=
  if t.exactWeight < 0 then 1 else t.exactWeight

/- The weight on a route is finite and not negative. -/
theorem exists_effectiveWeight
    (t : AttributeTable) :
    ∃ m : Nat,
      (effectiveWeight t.weight).value? = some (m : Int) ∧
        t.exactFee = (m : ℚ) / Binary64.one := by
  rcases t.exists_weight_eq with ⟨s, k, hWeight, hExact⟩
  have hOne : (0 : ℚ) < Binary64.one :=
    Nat.cast_pos.mpr Binary64.one_pos
  have hSign : t.exactWeight < 0 ↔ Binary64.signed s k < 0 := by
    rw [hExact, div_lt_iff₀ hOne, zero_mul, Int.cast_lt_zero]
  have hLt :
      (Binary64.finite s k).lt .zero =
        decide (Binary64.signed s k < 0) :=
    rfl
  rw [hWeight, effectiveWeight, exactFee, hLt]
  by_cases hNegative : Binary64.signed s k < 0
  · rw [if_pos (decide_eq_true hNegative),
      if_pos (hSign.mpr hNegative)]
    exact ⟨Binary64.one, rfl, (div_self hOne.ne').symm⟩
  · have hNat := Int.toNat_of_nonneg (not_lt.mp hNegative)
    rw [if_neg (mt of_decide_eq_true hNegative),
      if_neg (mt hSign.mp hNegative)]
    refine ⟨(Binary64.signed s k).toNat, congrArg some hNat.symm, ?_⟩
    rw [hExact, ← Int.cast_natCast (Binary64.signed s k).toNat, hNat]

end AttributeTable

end DotLang
