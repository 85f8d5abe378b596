import DotLang.Binary64.Basic
import Mathlib.Algebra.Order.Ring.Nat
import Mathlib.Data.Nat.Log

/-
  This file proves that rounding keeps the order of magnitudes,
  and does not change those that the format has.

  Key definitions include:
    * `Binary64.nearest`
    * `Binary64.ofUnits`

  Key theorems include:
    * `Binary64.nearest_of_dvd`
    * `Binary64.nearest_mono`
    * `Binary64.nearest_nearest`
    * `Binary64.round_one`
-/

------------------------------------------------------------
-- Rounded Quotients
------------------------------------------------------------

namespace DotLang

namespace Binary64

theorem roundQuotient_mono
    {m n d : Nat}
    (hLe : m ≤ n) :
    roundQuotient m d ≤ roundQuotient n d := by
  have hQuotient : m / d ≤ n / d := Nat.div_le_div_right hLe
  have hm := Nat.div_add_mod m d
  have hn := Nat.div_add_mod n d
  simp only [roundQuotient]
  rcases Nat.eq_or_lt_of_le hQuotient with hEq | hLt
  · rw [hEq] at hm ⊢
    have hRemainder : m % d ≤ n % d := by omega
    split <;> split <;> omega
  · split <;> split <;> omega

theorem roundQuotient_mul
    {d : Nat}
    (hd : 0 < d)
    (q : Nat) :
    roundQuotient (q * d) d = q := by
  rw [roundQuotient, Nat.mul_mod_left, Nat.mul_div_cancel _ hd]
  exact if_pos (.inl hd)

------------------------------------------------------------
-- Rounded Magnitudes
------------------------------------------------------------

/- The magnitude with at most 53 bits before its zeros. -/
def nearest (units : Nat) : Nat :=
  roundQuotient units (2 ^ slack units) * 2 ^ slack units

/- A magnitude of the format is not rounded. -/
theorem nearest_of_dvd
    {m : Nat}
    (h : 2 ^ slack m ∣ m) :
    nearest m = m := by
  rcases h with ⟨q, hq⟩
  have hRounded :
      roundQuotient m (2 ^ slack m) = q := by
    have hMul := roundQuotient_mul (Nat.two_pow_pos (slack m)) q
    rwa [Nat.mul_comm, ← hq] at hMul
  rw [nearest, hRounded, Nat.mul_comm]
  exact hq.symm

theorem slack_le_log2 (m : Nat) : slack m ≤ m.log2 := by
  unfold slack
  omega

/- Rounding goes no further than to a power of two. -/
theorem nearest_le_pow
    {m k : Nat}
    (hSlack : slack m ≤ k)
    (hLe : m ≤ 2 ^ k) :
    nearest m ≤ 2 ^ k := by
  rcases Nat.pow_dvd_pow 2 hSlack with ⟨q, hq⟩
  have hRounded :=
    roundQuotient_mono (d := 2 ^ slack m) (hLe.trans hq.le)
  rw [Nat.mul_comm,
    roundQuotient_mul (Nat.two_pow_pos (slack m))] at hRounded
  rw [nearest, hq, Nat.mul_comm]
  exact Nat.mul_le_mul_left _ hRounded

theorem pow_le_nearest
    {m k : Nat}
    (hSlack : slack m ≤ k)
    (hLe : 2 ^ k ≤ m) :
    2 ^ k ≤ nearest m := by
  rcases Nat.pow_dvd_pow 2 hSlack with ⟨q, hq⟩
  have hRounded :=
    roundQuotient_mono (d := 2 ^ slack m) (hq.symm.le.trans hLe)
  rw [Nat.mul_comm,
    roundQuotient_mul (Nat.two_pow_pos (slack m))] at hRounded
  rw [nearest, hq, Nat.mul_comm]
  exact Nat.mul_le_mul_right _ hRounded

theorem nearest_mono
    {m n : Nat}
    (hLe : m ≤ n) :
    nearest m ≤ nearest n := by
  have hLogs : m.log2 ≤ n.log2 := by
    rw [Nat.log2_eq_log_two, Nat.log2_eq_log_two]
    exact Nat.log_mono_right hLe
  rcases Nat.eq_or_lt_of_le hLogs with hEq | hLt
  · have hSlack : slack m = slack n := by
      rw [slack, slack, hEq]
    rw [nearest, nearest, hSlack]
    exact Nat.mul_le_mul_right _ (roundQuotient_mono hLe)
  · -- a power of two stands between them
    have hn : n ≠ 0 := by
      rintro rfl
      exact absurd hLt (by simp)
    have hSlack := slack_le_log2 m
    have hUp : nearest m ≤ 2 ^ (m.log2 + 1) :=
      nearest_le_pow (hSlack.trans (Nat.le_succ _))
        Nat.lt_log2_self.le
    have hBetween : 2 ^ (m.log2 + 1) ≤ 2 ^ n.log2 :=
      Nat.pow_le_pow_right Nat.two_pos hLt
    have hDown : 2 ^ n.log2 ≤ nearest n :=
      pow_le_nearest (slack_le_log2 n) (Nat.log2_self_le hn)
    exact (hUp.trans hBetween).trans hDown

/- Rounding yields a magnitude of the format. -/
theorem nearest_nearest (m : Nat) :
    nearest (nearest m) = nearest m := by
  apply nearest_of_dvd
  have hUp : nearest m ≤ 2 ^ (m.log2 + 1) :=
    nearest_le_pow ((slack_le_log2 m).trans (Nat.le_succ _))
      Nat.lt_log2_self.le
  rcases Nat.eq_or_lt_of_le hUp with hEq | hLt
  · rw [hEq]
    apply Nat.pow_dvd_pow 2
    exact (slack_le_log2 _).trans (by rw [Nat.log2_two_pow])
  · have hLog : (nearest m).log2 < m.log2 + 1 := by
      rcases Nat.eq_zero_or_pos (nearest m) with hZero | hPos
      · rw [hZero, Nat.log2_zero]
        exact Nat.succ_pos _
      · exact (Nat.log2_lt hPos.ne').mpr hLt
    have hSlack : slack (nearest m) ≤ slack m := by
      unfold slack
      omega
    exact (Nat.pow_dvd_pow 2 hSlack).trans (Nat.dvd_mul_left _ _)

/- A few bits before zeros are not rounded. -/
theorem nearest_of_bits
    {m k : Nat}
    (hDvd : 2 ^ k ∣ m)
    (hLt : m < 2 ^ (k + 53)) :
    nearest m = m := by
  apply nearest_of_dvd
  refine (Nat.pow_dvd_pow 2 ?_).trans hDvd
  rcases Nat.eq_zero_or_pos m with rfl | hPos
  · exact Nat.zero_le _
  · have hLog := (Nat.log2_lt hPos.ne').mpr hLt
    unfold slack
    omega

------------------------------------------------------------
-- Rounded Sums
------------------------------------------------------------

theorem nearest_zero : nearest 0 = 0 :=
  nearest_of_dvd (Nat.dvd_zero _)

theorem limit_pos : 0 < limit := by
  decide +kernel

theorem nearest_limit : nearest limit = limit := by
  decide +kernel

theorem nearest_pow (k : Nat) : nearest (2 ^ k) = 2 ^ k := by
  apply nearest_of_dvd
  apply Nat.pow_dvd_pow 2
  exact (slack_le_log2 _).trans (by rw [Nat.log2_two_pow])

/- The number with a magnitude, infinite if it is too large. -/
def ofUnits (units : Nat) : Binary64 :=
  if units < limit then finite false units else infinite false

theorem round_one (units : Nat) :
    round false units 1 = ofUnits (nearest units) := by
  rw [round, Nat.div_one, Nat.one_mul]
  rfl

theorem value?_ofUnits (units : Nat) :
    (ofUnits units).value? = some ((min units limit : Nat) : Int) := by
  unfold ofUnits
  split
  case isTrue hLt =>
    rw [Nat.min_eq_left hLt.le]
    rfl
  case isFalse hGe =>
    rw [Nat.min_eq_right (Nat.not_lt.mp hGe)]
    rfl

/- A magnitude is added to one that is not too large. -/
theorem ofUnits_add
    {n m : Nat}
    {w : Binary64}
    (hn : n ≤ limit)
    (hw : w.value? = some (m : Int)) :
    add (ofUnits n) w = ofUnits (nearest (n + m)) := by
  have hTop :
      ∀ {k : Nat}, limit ≤ k → ofUnits (nearest k) = infinite false := by
    intro k hk
    have hLe := nearest_mono hk
    rw [nearest_limit] at hLe
    exact if_neg (Nat.not_lt.mpr hLe)
  have hInfinite :
      ∀ {s : Bool}, (infinite s).value? = some (m : Int) →
        s = false ∧ m = limit := by
    intro s hs
    have hSigned : signed s limit = (m : Int) := Option.some.inj hs
    cases s with
    | false => exact ⟨rfl, (Int.ofNat.inj hSigned).symm⟩
    | true =>
        have hNegative : -(limit : Int) = (m : Int) := hSigned
        have hPositive := limit_pos
        omega
  rcases Nat.eq_or_lt_of_le hn with hEq | hLt
  · -- infinity plus anything is infinity
    have hFull : ofUnits n = infinite false :=
      if_neg hEq.not_lt
    rw [hTop (hEq.ge.trans (Nat.le_add_right n m)), hFull]
    cases w with
    | finite s k => rfl
    | infinite s =>
        rw [(hInfinite hw).1]
        rfl
    | undefined => cases hw
  · have hPart : ofUnits n = finite false n :=
      if_pos hLt
    rw [hPart]
    cases w with
    | finite s k =>
        have hSigned : signed s k = (m : Int) := Option.some.inj hw
        have hSum :
            signed false n + signed s k = ((n + m : Nat) : Int) := by
          rw [hSigned]
          rfl
        simp only [add, hSum]
        split
        case isTrue hZero =>
          have hNone : n + m = 0 := Int.ofNat.inj hZero
          rw [hNone, nearest_zero]
          exact (if_pos limit_pos).symm
        case isFalse hSome =>
          have hPositive : ¬ ((n + m : Nat) : Int) < 0 := by omega
          rw [decide_eq_false hPositive, Int.natAbs_natCast,
            round_one]
    | infinite s =>
        rcases hInfinite hw with ⟨rfl, hm⟩
        rw [hTop (hm.ge.trans (Nat.le_add_left m n))]
        rfl
    | undefined => cases hw

end Binary64

end DotLang
