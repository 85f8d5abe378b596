import DotLang.AttributeTable.Basic
import DotLang.Binary64.Reading
import DotLang.Journal
import DotLang.Text.Blank

/-
  This file defines what attributes mean as numbers, lists of
  numbers and truth values.

  The values stay texts.  A text that does not have the asked
  shape counts as no value, and a warning says so.

  Key definitions include:
    * `readReal?`
    * `readInteger?`
    * `readReals?`
    * `readTruth?`
    * `Shape`
    * `AttributeTable.warnings`
    * `AttributeTable.weight`
-/

------------------------------------------------------------
-- Texts with a Shape
------------------------------------------------------------

namespace DotLang

/- A real number, with blanks around it. -/
def readReal? (text : List Char) : Option Binary64 :=
  Binary64.ofText? (trimBlanks text)

/- A whole number of 64 bits, with blanks around it. -/
def readInteger? (text : List Char) : Option Int :=
  readSigned? (trimBlanks text)

/- Leave out one exclamation mark at the end. -/
def dropPin (text : List Char) : List Char :=
  if text.getLast? = some '!' then text.dropLast else text

/-
  One or more real numbers with commas or blanks between them.
  An exclamation mark at the end does not count.
-/
def readReals? (text : List Char) : Option (List Binary64) :=
  let words :=
    splitWords (fun c => c = ',' || isBlank c)
      (dropPin (trimBlanks text))
  if words.isEmpty then
    none
  else
    words.mapM Binary64.ofText?

/-
  A truth value: a word in any case, or a whole number, which
  is true unless it is zero.
-/
def readTruth? (text : List Char) : Option Bool :=
  let trimmed := trimBlanks text
  let word := String.ofList (trimmed.map Char.toLower)
  if word = "true" ∨ word = "yes" then
    some true
  else if word = "false" ∨ word = "no" then
    some false
  else
    (readSigned? trimmed).map fun n => n ≠ 0

------------------------------------------------------------
-- Shapes
------------------------------------------------------------

/- The shapes that a text can be asked for. -/
inductive Shape where
| real
| integer
| reals
| truth
deriving DecidableEq, Repr, Inhabited

namespace Shape

/- The name of a shape in warnings. -/
def title : Shape → String
| real => "a number"
| integer => "an integer"
| reals => "a list of numbers"
| truth => "a boolean"

/- A text has a shape. -/
def fits : Shape → List Char → Bool
| real, text => (readReal? text).isSome
| integer, text => (readInteger? text).isSome
| reals, text => (readReals? text).isSome
| truth, text => (readTruth? text).isSome

end Shape

------------------------------------------------------------
-- Typed Look-ups
------------------------------------------------------------

namespace AttributeTable

/- The value of a name as a real number. -/
def real?
    (t : AttributeTable)
    (name : String) : Option Binary64 :=
  (t.text? name).bind fun text => readReal? text.toList

/- The value of a name as a whole number. -/
def integer?
    (t : AttributeTable)
    (name : String) : Option Int :=
  (t.text? name).bind fun text => readInteger? text.toList

/- The value of a name as a list of real numbers. -/
def reals?
    (t : AttributeTable)
    (name : String) : Option (List Binary64) :=
  (t.text? name).bind fun text => readReals? text.toList

/- The value of a name as a truth value. -/
def truth?
    (t : AttributeTable)
    (name : String) : Option Bool :=
  (t.text? name).bind fun text => readTruth? text.toList

/-
  What asking for a name in some shape says: a warning if the
  name has a value without that shape.
-/
def warnings
    (t : AttributeTable)
    (name : String)
    (shape : Shape) : List Entry :=
  match t.text? name with
  | none => []
  | some text =>
      if shape.fits text.toList then
        []
      else
        [{ level := .warning
           origin := .attributes
           message :=
            "Can't parse attribute " ++ name ++ "=\"" ++ text ++
              "\" as " ++ shape.title }]

------------------------------------------------------------
-- Weights
------------------------------------------------------------

/- The name of the attribute that holds the weight of an edge. -/
def weightName : String :=
  "weight"

/- The weight of an edge that has no usable one. -/
def defaultWeight : Binary64 :=
  .finite false Binary64.one

/- The weight of an edge with these attributes. -/
def weight (t : AttributeTable) : Binary64 :=
  match t.real? weightName with
  | some w => if w.isFinite then w else defaultWeight
  | none => defaultWeight

/- What asking for a weight says. -/
def weightWarnings (t : AttributeTable) : List Entry :=
  t.warnings weightName .real

end AttributeTable

end DotLang
