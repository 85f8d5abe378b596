import DotLang.Proofs.Route.Numbers

/-
  This file proves that the weights of routes are exact as long
  as 53 bits hold them.

  If all weights are whole numbers of some power of two, then
  sums below 2 to the 53 of it are not rounded, and all others
  are rounded to numbers that are no less.

  Key definitions include:
    * `Arc.reweigh`
    * `Agrees`

  Key theorems include:
    * `weightAlong_reweigh`
    * `Agrees.add`
    * `Agrees.lighter`
-/

------------------------------------------------------------
-- Routes on Two Scales
------------------------------------------------------------

namespace DotLang

section Reweigh

variable {T V W : Type}

/- An arc with the same ends and another weight. -/
def Arc.reweigh (f : T → W) (arc : Arc T) : Arc W :=
  ⟨arc.source, arc.target, f arc.weight⟩

theorem arcsFrom_reweigh
    (f : T → W)
    (arcs : List (Arc T))
    (n : NodeId) :
    arcsFrom (arcs.map (Arc.reweigh f)) n =
      (arcsFrom arcs n).map (Arc.reweigh f) :=
  List.filter_map

variable [Scale V] [Scale W]

/-
  What relates the weights on two scales relates the weights of
  lightest arcs, if it is kept when the lighter of two is taken.
-/
theorem lightestArc_reweigh
    (Rel : V → W → Prop)
    (f : T → V)
    (f' : T → W)
    {arcs : List (Arc T)}
    (hArcs : ∀ arc ∈ arcs, Rel (f arc.weight) (f' arc.weight))
    (hInfinite : Rel Scale.infinite Scale.infinite)
    (hLighter :
      ∀ {x y x' y'},
        Rel x y →
          Rel x' y' →
            Rel (if Scale.lt x' x then x' else x)
              (if Scale.lt y' y then y' else y))
    (a b : NodeId) :
    Rel (lightestArc (arcs.map (Arc.reweigh f)) a b)
      (lightestArc (arcs.map (Arc.reweigh f')) a b) := by
  have hFold :
      ∀ (ways : List (Arc T)) {x : V} {y : W},
        (∀ way ∈ ways, Rel (f way.weight) (f' way.weight)) →
          Rel x y →
            Rel
              ((ways.map (Arc.reweigh f)).foldl
                (fun least arc =>
                  if Scale.lt arc.weight least then
                    arc.weight
                  else
                    least) x)
              ((ways.map (Arc.reweigh f')).foldl
                (fun least arc =>
                  if Scale.lt arc.weight least then
                    arc.weight
                  else
                    least) y) := by
    intro ways
    induction ways with
    | nil => exact fun _ h => h
    | cons way ways ih =>
        intro x y hWays hxy
        exact ih
          (fun w hw => hWays w (List.mem_cons_of_mem way hw))
          (hLighter hxy (hWays way List.mem_cons_self))
  have hWays :
      ∀ way ∈ (arcsFrom arcs a).filter fun way => way.target = b,
        Rel (f way.weight) (f' way.weight) :=
    fun way h => hArcs way (mem_arcsFrom_filter.mp h).1
  have hBoth := hFold _ hWays hInfinite
  rw [lightestArc, lightestArc, arcsFrom_reweigh, arcsFrom_reweigh,
    List.filter_map, List.filter_map]
  exact hBoth

/- The same for weights that are added up along a route. -/
theorem weightAlong_reweigh
    (Rel RelCost : V → W → Prop)
    (f : T → V)
    (f' : T → W)
    {arcs : List (Arc T)}
    (hLightest :
      ∀ a b,
        Rel (lightestArc (arcs.map (Arc.reweigh f)) a b)
          (lightestArc (arcs.map (Arc.reweigh f')) a b))
    (hZero : RelCost Scale.zero Scale.zero)
    (hAdd :
      ∀ {x y w v},
        RelCost x y →
          Rel w v →
            RelCost (Scale.add x w) (Scale.add y v))
    (route : List NodeId) :
    RelCost (weightAlong (arcs.map (Arc.reweigh f)) route)
      (weightAlong (arcs.map (Arc.reweigh f')) route) := by
  have hTotal :
      ∀ {x : V} {y : W},
        RelCost x y →
          RelCost
            (addWeights (arcs.map (Arc.reweigh f)) x route)
            (addWeights (arcs.map (Arc.reweigh f')) y route) := by
    induction route with
    | nil => exact fun h => h
    | cons n route ih =>
        intro x y hxy
        rcases route with _ | ⟨m, route⟩
        · exact hxy
        · rw [addWeights, addWeights]
          exact ih (hAdd hxy (hLightest n m))
  exact hTotal hZero

end Reweigh

------------------------------------------------------------
-- Numbers of 53 Bits
------------------------------------------------------------

open Binary64

/- A number of units as an exact number. -/
def exactUnits (n : Nat) : ℚ :=
  (n : ℚ) / one

theorem exactUnits_le_iff
    {m n : Nat} :
    exactUnits m ≤ exactUnits n ↔ m ≤ n := by
  have hOne : (0 : ℚ) < one := Nat.cast_pos.mpr Binary64.one_pos
  rw [exactUnits, exactUnits, div_le_div_iff_of_pos_right hOne,
    Nat.cast_le]

theorem exactUnits_add (m n : Nat) :
    exactUnits (m + n) = exactUnits m + exactUnits n := by
  rw [exactUnits, exactUnits, exactUnits, Nat.cast_add]
  exact add_div _ _ _

theorem exactUnits_mul (m n : Nat) :
    exactUnits (m * n) = m * exactUnits n := by
  rw [exactUnits, exactUnits, Nat.cast_mul, mul_div_assoc]

theorem exactUnits_inj
    {m n : Nat}
    (h : exactUnits m = exactUnits n) :
    m = n :=
  Nat.le_antisymm (exactUnits_le_iff.mp h.le)
    (exactUnits_le_iff.mp h.ge)

theorem exactUnits_nonneg (n : Nat) :
    (0 : WithTop ℚ) ≤ (exactUnits n : WithTop ℚ) :=
  WithTop.coe_le_coe.mpr (by
    rw [exactUnits]
    exact div_nonneg (Nat.cast_nonneg n) (Nat.cast_nonneg one))

/- The least sum that 53 bits before `k` zeros do not hold. -/
def ceiling (k : Nat) : Nat :=
  2 ^ (k + 53)

/-
  A number that is the exact one if it is below the ceiling, and
  is not below it otherwise.
-/
def Agrees (k : Nat) (x : Binary64) (y : WithTop ℚ) : Prop :=
  ∃ n : Nat,
    x.value? = some (n : Int) ∧
      (n < ceiling k → 2 ^ k ∣ n ∧ y = (exactUnits n : ℚ)) ∧
      (ceiling k ≤ n → (exactUnits (ceiling k) : ℚ) ≤ y)

namespace Agrees

variable {k : Nat} {x w : Binary64} {y v : WithTop ℚ}

/- The exact number is no less than what units it has at least. -/
theorem exactUnits_le
    (h : Agrees k x y)
    {n j : Nat}
    (hn : x.value? = some (n : Int))
    (hj : j ≤ n)
    (hCeiling : j ≤ ceiling k) :
    (exactUnits j : WithTop ℚ) ≤ y := by
  rcases h with ⟨i, hi, hSmall, hLarge⟩
  have hEq : i = n := Int.ofNat.inj (Option.some.inj (hi.symm.trans hn))
  subst hEq
  rcases Nat.lt_or_ge i (ceiling k) with hLt | hGe
  · rw [(hSmall hLt).2]
    exact WithTop.coe_le_coe.mpr (exactUnits_le_iff.mpr hj)
  · exact le_trans
      (WithTop.coe_le_coe.mpr (exactUnits_le_iff.mpr hCeiling))
      (hLarge hGe)

theorem isWeight
    (h : Agrees k x y) :
    IsWeight x := by
  rcases h with ⟨n, hn, -⟩
  exact ⟨n, hn⟩

theorem nonneg
    (h : Agrees k x y) :
    0 ≤ y := by
  have hLe := h
  rcases h with ⟨n, hn, -⟩
  exact (exactUnits_nonneg 0).trans
    (hLe.exactUnits_le hn (Nat.zero_le n) (Nat.zero_le _))

theorem infinite
    (hk : ceiling k ≤ limit) :
    Agrees k (infinite false) ⊤ :=
  ⟨limit, rfl, fun hLt => absurd hLt (Nat.not_lt.mpr hk),
    fun _ => le_top⟩

theorem zero (k : Nat) : Agrees k Binary64.zero 0 := by
  have hCeiling : 0 < ceiling k := Nat.two_pow_pos _
  refine ⟨0, rfl, fun _ => ⟨Nat.dvd_zero _, ?_⟩, fun hGe => ?_⟩
  · rw [exactUnits, Nat.cast_zero, zero_div]
    rfl
  · exact absurd hGe (Nat.not_le.mpr hCeiling)

/- The lighter of two numbers. -/
theorem lighter
    (h : Agrees k x y)
    (h' : Agrees k w v) :
    Agrees k (if Binary64.lt w x then w else x)
      (if v < y then v else y) := by
  have hBoth := h
  have hBoth' := h'
  rcases h with ⟨n, hn, hSmall, hLarge⟩
  rcases h' with ⟨m, hm, hSmall', hLarge'⟩
  have hLt : Binary64.lt w x = true ↔ m < n := by
    rw [Binary64.lt, hn, hm]
    exact decide_eq_true_iff.trans Int.ofNat_lt
  by_cases hLess : m < n
  · rw [if_pos (hLt.mpr hLess)]
    rcases Nat.lt_or_ge m (ceiling k) with hBelow | hAbove
    · have hNext : exactUnits m < exactUnits (m + 1) :=
        lt_of_not_ge fun hGe =>
          absurd (exactUnits_le_iff.mp hGe) (Nat.not_succ_le_self m)
      have hLighter : v < y := by
        rw [(hSmall' hBelow).2]
        exact (WithTop.coe_lt_coe.mpr hNext).trans_le
          (hBoth.exactUnits_le hn hLess hBelow)
      rw [if_pos hLighter]
      exact hBoth'
    · refine ⟨m, hm, fun hBelow => ?_, fun _ => ?_⟩
      · exact absurd hBelow (Nat.not_lt.mpr hAbove)
      · split
        · exact hLarge' hAbove
        · exact hLarge (hAbove.trans hLess.le)
  · have hLe := Nat.not_lt.mp hLess
    rw [if_neg (mt hLt.mp hLess)]
    rcases Nat.lt_or_ge n (ceiling k) with hBelow | hAbove
    · have hHeavier : ¬ v < y := by
        rw [(hSmall hBelow).2, not_lt]
        exact hBoth'.exactUnits_le hm hLe hBelow.le
      rw [if_neg hHeavier]
      exact hBoth
    · refine ⟨n, hn, fun hBelow => ?_, fun _ => ?_⟩
      · exact absurd hBelow (Nat.not_lt.mpr hAbove)
      · split
        · exact hLarge' (hAbove.trans hLe)
        · exact hLarge hAbove

/- A sum below the ceiling is not rounded. -/
theorem add
    (hk : ceiling k ≤ limit)
    (hx : IsCost x)
    (h : Agrees k x y)
    (h' : Agrees k w v) :
    Agrees k (Binary64.add x w) (y + v) := by
  have hy := h.nonneg
  have hv := h'.nonneg
  rcases hx with @⟨n, hLimit, -⟩
  have hn := value?_ofUnits_of_le hLimit
  rcases h with ⟨i, hi, hSmall, hLarge⟩
  have hEq : i = n := Int.ofNat.inj (Option.some.inj (hi.symm.trans hn))
  subst hEq
  rcases h' with ⟨m, hm, hSmall', hLarge'⟩
  have hSum := value?_ofUnits (nearest (i + m))
  rw [← ofUnits_add hLimit hm] at hSum
  rcases Nat.lt_or_ge (i + m) (ceiling k) with hBelow | hAbove
  · rcases hSmall (Nat.lt_of_le_of_lt (Nat.le_add_right i m) hBelow)
      with ⟨hDvd, rfl⟩
    rcases hSmall' (Nat.lt_of_le_of_lt (Nat.le_add_left m i) hBelow)
      with ⟨hDvd', rfl⟩
    have hDvdSum := Nat.dvd_add hDvd hDvd'
    rw [nearest_of_bits hDvdSum hBelow,
      Nat.min_eq_left (hBelow.le.trans hk)] at hSum
    refine ⟨i + m, hSum, fun _ => ⟨hDvdSum, ?_⟩, fun hGe => ?_⟩
    · rw [exactUnits_add, WithTop.coe_add]
    · exact absurd hGe (Nat.not_le.mpr hBelow)
  · have hRounded := nearest_mono hAbove
    rw [ceiling, nearest_pow, ← ceiling] at hRounded
    refine ⟨_, hSum, fun hBelow => ?_, fun _ => ?_⟩
    · exact absurd hBelow
        (Nat.not_lt.mpr (Nat.le_min.mpr ⟨hRounded, hk⟩))
    · rcases Nat.lt_or_ge i (ceiling k) with hLt | hGe
      · rcases Nat.lt_or_ge m (ceiling k) with hLt' | hGe'
        · rw [(hSmall hLt).2, (hSmall' hLt').2, ← WithTop.coe_add,
            ← exactUnits_add]
          exact WithTop.coe_le_coe.mpr
            (exactUnits_le_iff.mpr hAbove)
        · exact (hLarge' hGe').trans (le_add_of_nonneg_left hy)
      · exact (hLarge hGe).trans (le_add_of_nonneg_right hv)

end Agrees

end DotLang
