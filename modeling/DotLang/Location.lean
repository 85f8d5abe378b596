/-
  This file defines places in a source text, and the excerpt
  that shows a place to a reader.

  Key definitions include:
    * `Location`
    * `lineAround`
    * `excerpt`
-/

------------------------------------------------------------
-- Locations
------------------------------------------------------------

namespace DotLang

/-
  A place in a text.  Lines and columns count from one.  The
  offset is the number of characters up to and including the
  one at the place.
-/
structure Location where
  line : Nat
  column : Nat
  offset : Nat
deriving DecidableEq, Repr, Inhabited

------------------------------------------------------------
-- Excerpts
------------------------------------------------------------

/-
  The line of the text that holds the character after the first
  `skipped` ones, with the number of characters of that line
  that stand before it.
-/
def lineAround
    (text : List Char)
    (skipped : Nat) : List Char × Nat :=
  let before :=
    ((text.take skipped).reverse.takeWhile (· ≠ '\n')).reverse
  let after := (text.drop skipped).takeWhile (· ≠ '\n')
  (before ++ after, before.length)

/-
  The line of the text at an offset, and under it a marker that
  points at the character with that offset.
-/
def excerpt
    (text : List Char)
    (offset : Nat) : String :=
  let place := lineAround text (min offset text.length - 1)
  String.ofList
    (place.1 ++ '\n' :: List.replicate place.2 ' ' ++ ['^'])

end DotLang
