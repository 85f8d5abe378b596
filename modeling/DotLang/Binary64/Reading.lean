import DotLang.Binary64.Basic
import DotLang.Text.Numeral

/-
  This file defines the texts of real numbers and the binary64
  numbers nearest to them.

  Key definitions include:
    * `Decimal`
    * `Decimal.ofText?`
    * `Decimal.toBinary64`
    * `Binary64.ofText?`
-/

------------------------------------------------------------
-- Decimal Fractions
------------------------------------------------------------

namespace DotLang

/- Digits times a power of ten. -/
structure Decimal where
  digits : Nat
  exponent : Int
deriving DecidableEq, Repr, Inhabited

namespace Decimal

/- A sign and digits, the sign being optional. -/
def readExponent? : List Char → Option Int
| '-' :: digits => (readDigits? digits).map fun n => -n
| '+' :: digits => (readDigits? digits).map fun n => n
| digits => (readDigits? digits).map fun n => n

/- The exponent behind the digits, which is zero if left out. -/
def readScale? : List Char → Option Int
| [] => some 0
| 'e' :: rest => readExponent? rest
| 'E' :: rest => readExponent? rest
| _ => none

/-
  Digits with an optional period among or around them, and an
  optional exponent.
-/
def ofText? (text : List Char) : Option Decimal :=
  let whole := text.takeWhile Char.isDigit
  let behind := text.dropWhile Char.isDigit
  let (fraction, tail) :=
    match behind with
    | '.' :: rest =>
        (rest.takeWhile Char.isDigit, rest.dropWhile Char.isDigit)
    | _ => ([], behind)
  if whole.isEmpty && fraction.isEmpty then
    none
  else
    (readScale? tail).map fun scale =>
      { digits := ofDigits (whole ++ fraction)
        exponent := scale - fraction.length }

/- The number of decimal digits of a positive number. -/
def width (n : Nat) : Nat :=
  (Nat.toDigits 10 n).length

/-
  The nearest binary64 number.  From ten to the 310 on all are
  infinite, and below ten to the minus 325 all are zero.
-/
def toBinary64
    (negative : Bool)
    (d : Decimal) : Binary64 :=
  let magnitude := width d.digits + d.exponent
  if d.digits = 0 ∨ magnitude < -325 then
    .finite negative 0
  else if 311 < magnitude then
    .infinite negative
  else if 0 ≤ d.exponent then
    .round negative
      (d.digits * Nat.pow 10 d.exponent.toNat * Binary64.one) 1
  else
    .round negative
      (d.digits * Binary64.one) (Nat.pow 10 (-d.exponent).toNat)

end Decimal

------------------------------------------------------------
-- Texts of Numbers
------------------------------------------------------------

namespace Binary64

/- An unsigned number: a decimal fraction or a name, in any case. -/
def ofUnsigned?
    (negative : Bool)
    (text : List Char) : Option Binary64 :=
  let name := text.map Char.toLower
  if name = "inf".toList ∨ name = "infinity".toList then
    some (.infinite negative)
  else if name = "nan".toList then
    some .undefined
  else
    (Decimal.ofText? text).map (Decimal.toBinary64 negative)

/- A number with an optional sign. -/
def ofText? : List Char → Option Binary64
| '-' :: text => ofUnsigned? true text
| '+' :: text => ofUnsigned? false text
| text => ofUnsigned? false text

end Binary64

end DotLang
