/-
  This file defines the decimal numerals of whole numbers.

  Key definitions include:
    * `readDigits?`
    * `readSigned?`
    * `readUnsigned?`
-/

------------------------------------------------------------
-- Digits
------------------------------------------------------------

namespace DotLang

/- The value of a decimal digit. -/
def digitValue (c : Char) : Nat :=
  c.toNat - '0'.toNat

/- The number that digits spell, most significant first. -/
def ofDigits (digits : List Char) : Nat :=
  digits.foldl (fun n c => 10 * n + digitValue c) 0

/- The number that one or more digits spell. -/
def readDigits? (text : List Char) : Option Nat :=
  if !text.isEmpty && text.all Char.isDigit then
    some (ofDigits text)
  else
    none

------------------------------------------------------------
-- Words of Sixty-Four Bits
------------------------------------------------------------

/- Digits with an optional plus sign, below two to the 64. -/
def readUnsigned? (text : List Char) : Option Nat :=
  let digits :=
    match text with
    | '+' :: rest => rest
    | _ => text
  (readDigits? digits).filter (· < Nat.pow 2 64)

/-
  Digits with an optional sign, for a number from minus two to
  the 63 up to, but not including, two to the 63.
-/
def readSigned? : List Char → Option Int
| '-' :: digits =>
    ((readDigits? digits).filter (· ≤ Nat.pow 2 63)).map fun n => -n
| '+' :: digits =>
    ((readDigits? digits).filter (· < Nat.pow 2 63)).map fun n => n
| digits =>
    ((readDigits? digits).filter (· < Nat.pow 2 63)).map fun n => n

end DotLang
