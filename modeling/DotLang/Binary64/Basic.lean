/-
  This file defines the numbers of the binary64 format with
  exact arithmetic on them.

  A finite number is a whole number of units, and one unit is
  two to the power of minus 1074, the least positive number of
  the format.  A magnitude of more than 53 bits ends in zeros.

  Key definitions include:
    * `Binary64`
    * `Binary64.round`
    * `Binary64.add`
    * `Binary64.lt`
    * `Binary64.rank`
    * `Binary64.bits?`
-/

------------------------------------------------------------
-- Numbers
------------------------------------------------------------

namespace DotLang

/- A number with a sign, infinity, or not a number. -/
inductive Binary64 where
| finite (negative : Bool) (units : Nat)
| infinite (negative : Bool)
| undefined
deriving DecidableEq, Repr, Inhabited

namespace Binary64

/- The number of units in one. -/
def one : Nat :=
  Nat.pow 2 1074

/- The least number of units that is too large. -/
def limit : Nat :=
  Nat.pow 2 2098

/- The number zero. -/
def zero : Binary64 :=
  finite false 0

/- Infinities and undefined results are not finite. -/
def isFinite : Binary64 → Bool
| finite _ _ => true
| _ => false

------------------------------------------------------------
-- Rounding
------------------------------------------------------------

/-
  The number of low bits of a magnitude that have to be zero,
  so that 53 bits hold the others.
-/
def slack (units : Nat) : Nat :=
  units.log2 + 1 - 53

/- A quotient to the nearest whole number, a half to the even. -/
def roundQuotient (numerator denominator : Nat) : Nat :=
  let quotient := numerator / denominator
  let remainder := numerator % denominator
  if 2 * remainder < denominator ∨
      (2 * remainder = denominator ∧ quotient % 2 = 0) then
    quotient
  else
    quotient + 1

/-
  The number of the format that is nearest to a quotient of
  units.
-/
def round
    (negative : Bool)
    (numerator denominator : Nat) : Binary64 :=
  let step := Nat.pow 2 (slack (numerator / denominator))
  let units := roundQuotient numerator (denominator * step) * step
  if units < limit then
    finite negative units
  else
    infinite negative

------------------------------------------------------------
-- Arithmetic
------------------------------------------------------------

/- A sign and a magnitude as an integer. -/
def signed (negative : Bool) (units : Nat) : Int :=
  if negative then -(units : Int) else units

/-
  The rounded sum.  A sum of zero is negative only if both
  numbers are.
-/
def add : Binary64 → Binary64 → Binary64
| finite s m, finite t n =>
    let sum := signed s m + signed t n
    if sum = 0 then
      finite (s && t) 0
    else
      round (sum < 0) sum.natAbs 1
| infinite s, infinite t =>
    if s = t then infinite s else undefined
| undefined, _ => undefined
| _, undefined => undefined
| infinite s, finite _ _ => infinite s
| finite _ _, infinite t => infinite t

instance : Add Binary64 :=
  ⟨add⟩

------------------------------------------------------------
-- Orders
------------------------------------------------------------

/-
  The value in units, with infinities beyond all others.  An
  undefined result has no value.
-/
def value? : Binary64 → Option Int
| finite s m => some (signed s m)
| infinite s => some (signed s limit)
| undefined => none

/-
  Less than by value.  Both zeros have the same value, and
  nothing is less or more than an undefined result.
-/
def lt (x y : Binary64) : Bool :=
  match x.value?, y.value? with
  | some a, some b => a < b
  | _, _ => false

/-
  The place in the total order of all numbers, where minus zero
  stands right before zero and an undefined result at the end.
-/
def rank : Binary64 → Int
| finite false m => m
| finite true m => -(m : Int) - 1
| infinite false => limit
| infinite true => -(limit : Int) - 1
| undefined => limit + 1

------------------------------------------------------------
-- Bits
------------------------------------------------------------

/- The weight of the sign bit. -/
def signBit (negative : Bool) : Nat :=
  if negative then Nat.pow 2 63 else 0

/-
  The bits of the interchange format.  Below two to the 52
  units the exponent field is zero.
-/
def bits? : Binary64 → Option Nat
| finite s m =>
    if m < Nat.pow 2 52 then
      some (signBit s + m)
    else
      let exponent := m.log2 - 51
      let fraction := m / Nat.pow 2 (exponent - 1) - Nat.pow 2 52
      some (signBit s + exponent * Nat.pow 2 52 + fraction)
| infinite s => some (signBit s + 2047 * Nat.pow 2 52)
| undefined => none

end Binary64

end DotLang
