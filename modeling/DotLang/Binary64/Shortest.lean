import DotLang.Binary64.Basic

/-
  This file defines the text of a number: the fewest decimal
  digits that are nearer to it than to any other number of the
  format, written without an exponent.

  Every number of digits gives a grid of decimal fractions.
  The first grid with a point that rounds back to the number
  wins; of two such points the nearer one, and of two that are
  equally near the larger one.

  Key definitions include:
    * `RoundingInterval`
    * `shortestDigits`
    * `Binary64.display`
-/

------------------------------------------------------------
-- Rounding Intervals
------------------------------------------------------------

namespace DotLang

/-
  The reals that round to a positive number, in quarters of a
  unit.  The bounds belong to it if `closed` holds.
-/
structure RoundingInterval where
  low : Nat
  middle : Nat
  high : Nat
  closed : Bool
deriving DecidableEq, Repr, Inhabited

namespace RoundingInterval

/-
  The interval around a number.  Below a power of two numbers
  lie twice as close, unless they are as close as they get.
-/
def around (units : Nat) : RoundingInterval :=
  let shift := Binary64.slack units
  let step := Nat.pow 2 shift
  let narrow := 0 < shift ∧ units = Nat.pow 2 (52 + shift)
  { low := 4 * units - (if narrow then step else 2 * step)
    middle := 4 * units
    high := 4 * units + 2 * step
    closed := units / step % 2 = 0 }

/-
  The point with a numerator over a denominator of quarters
  lies inside.
-/
def contains
    (i : RoundingInterval)
    (numerator denominator : Nat) : Bool :=
  if i.closed then
    i.low * denominator ≤ numerator &&
      numerator ≤ i.high * denominator
  else
    i.low * denominator < numerator &&
      numerator < i.high * denominator

end RoundingInterval

------------------------------------------------------------
-- Shortest Digits
------------------------------------------------------------

/- The number of quarters of a unit in one. -/
def quartersInOne : Nat :=
  4 * Binary64.one

/-
  The exponent of the least power of ten that is more than a
  positive number of units.
-/
def decimalMagnitude (units : Nat) : Int :=
  let whole := units / Binary64.one
  if 0 < whole then
    (Nat.toDigits 10 whole).length
  else
    let zeros : Option Nat := (List.range 330).find? fun n =>
      Binary64.one ≤ units * Nat.pow 10 (n + 1)
    Int.neg (zeros.getD 0)

/-
  The point of the grid of multiples of ten to the `scale` that
  is inside the interval and nearest to its middle, if any is.
-/
def nearestOnGrid?
    (i : RoundingInterval)
    (scale : Int) : Option Nat :=
  let up := Nat.pow 10 scale.toNat * quartersInOne
  let down := Nat.pow 10 (-scale).toNat
  let lower := i.middle * down / up
  let remainder := i.middle * down % up
  let lowerInside := i.contains (lower * up) down
  let upperInside := i.contains ((lower + 1) * up) down
  if lowerInside && (!upperInside || 2 * remainder < up) then
    some lower
  else if upperInside then
    some (lower + 1)
  else
    none

/-
  The fewest digits for a positive number of units, and the
  power of ten that they count.
-/
def shortestDigits (units : Nat) : Nat × Int :=
  let i := RoundingInterval.around units
  let magnitude := decimalMagnitude units
  let found := (List.range 17).findSome? fun (n : Nat) =>
    let scale := magnitude - (n + 1)
    (nearestOnGrid? i scale).map fun digits => (digits, scale)
  found.getD (0, 0)

------------------------------------------------------------
-- Text
------------------------------------------------------------

/- The text of digits times a power of ten. -/
def positional (digits : Nat) (scale : Int) : String :=
  let text := Nat.toDigits 10 digits
  if 0 ≤ scale then
    String.ofList (text ++ List.replicate scale.toNat '0')
  else
    let places := (-scale).toNat
    let padded :=
      List.replicate (places + 1 - text.length) '0' ++ text
    let whole := padded.take (padded.length - places)
    let fraction :=
      ((padded.drop (padded.length - places)).reverse.dropWhile
        (· = '0')).reverse
    if fraction.isEmpty then
      String.ofList whole
    else
      String.ofList (whole ++ '.' :: fraction)

/- The text of a number. -/
def Binary64.display : Binary64 → String
| .finite s m =>
    let sign := if s then "-" else ""
    if m = 0 then
      sign ++ "0"
    else
      let (digits, scale) := shortestDigits m
      sign ++ positional digits scale
| .infinite s => if s then "-inf" else "inf"
| .undefined => "NaN"

end DotLang
