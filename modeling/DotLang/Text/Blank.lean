/-
  This file defines blank characters: those with the Unicode
  property White_Space, in every plane.

  Key definitions include:
    * `blankRanges`
    * `isBlank`
    * `trimBlanks`
    * `splitWords`
-/

------------------------------------------------------------
-- Blank Characters
------------------------------------------------------------

namespace DotLang

/- The code points with the property White_Space, as closed ranges. -/
def blankRanges : List (Nat × Nat) :=
  [ (0x0009, 0x000d),
    (0x0020, 0x0020),
    (0x0085, 0x0085),
    (0x00a0, 0x00a0),
    (0x1680, 0x1680),
    (0x2000, 0x200a),
    (0x2028, 0x2029),
    (0x202f, 0x202f),
    (0x205f, 0x205f),
    (0x3000, 0x3000) ]

/- A character is blank when one of the ranges holds it. -/
def isBlank (c : Char) : Bool :=
  blankRanges.any fun range =>
    range.1 ≤ c.toNat && c.toNat ≤ range.2

/- The null character is not blank. -/
theorem isBlank_null : isBlank '\x00' = false := by
  decide

/- The ranges hold twenty-five characters in all. -/
example :
    (blankRanges.map fun range =>
      range.2 + 1 - range.1).foldl (· + ·) 0 = 25 := by
  decide

------------------------------------------------------------
-- Trimming and Splitting
------------------------------------------------------------

/- Remove the blanks at both ends of a text. -/
def trimBlanks (text : List Char) : List Char :=
  ((text.dropWhile isBlank).reverse.dropWhile isBlank).reverse

/-
  The maximal runs of characters that are not separators, in
  order.  Empty runs are left out.
-/
def splitWords
    (isSeparator : Char → Bool)
    (text : List Char) : List (List Char) :=
  (text.splitOnP isSeparator).filter fun word => !word.isEmpty

end DotLang
