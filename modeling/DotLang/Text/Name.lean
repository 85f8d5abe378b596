/-
  This file defines the characters of names and the shape of
  numerals, the two kinds of identifier that need no quotes.

  Key definitions include:
    * `isNameStart`
    * `isNamePart`
    * `isPlainName`
    * `takeNumeral`
    * `isNumeral`
-/

------------------------------------------------------------
-- Names
------------------------------------------------------------

namespace DotLang

/-
  A name starts with a letter, an underscore, or any character
  that is not in ASCII.
-/
def isNameStart (c : Char) : Bool :=
  c.isAlpha || c = '_' || 128 ≤ c.toNat

/- A name goes on with such characters and with digits. -/
def isNamePart (c : Char) : Bool :=
  isNameStart c || c.isDigit

/- A text is a plain name when its characters form one name. -/
def isPlainName : List Char → Bool
| [] => false
| c :: rest => isNameStart c && rest.all isNamePart

------------------------------------------------------------
-- Numerals
------------------------------------------------------------

/-
  The longest start of a text that holds digits and at most one
  period.
-/
def takeNumeral (text : List Char) : List Char :=
  let whole := text.takeWhile Char.isDigit
  match text.dropWhile Char.isDigit with
  | '.' :: rest => whole ++ '.' :: rest.takeWhile Char.isDigit
  | _ => whole

/-
  An unsigned numeral has digits and at most one period, and
  is not a period alone.
-/
def isUnsignedNumeral (text : List Char) : Bool :=
  !text.isEmpty && text ≠ ['.'] && takeNumeral text = text

/- A numeral may carry a minus sign. -/
def isNumeral : List Char → Bool
| '-' :: text => isUnsignedNumeral text
| text => isUnsignedNumeral text

end DotLang
