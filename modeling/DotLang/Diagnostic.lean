import DotLang.Location

/-
  This file defines the errors and warnings about a text.

  Key definitions include:
    * `Diagnostic.Kind`
    * `Diagnostic`
    * `Diagnostic.text`
-/

------------------------------------------------------------
-- Kinds
------------------------------------------------------------

namespace DotLang

namespace Diagnostic

/-
  The families of problems.  `semantic` ones are warnings about
  well-formed text; `unreadable` means that there is no text.
-/
inductive Kind where
| lexical
| grammatical
| semantic
| unexpectedEnd
| tooManyErrors
| unreadable
deriving DecidableEq, Repr, Inhabited

namespace Kind

/- Problems of a fatal kind end the reading of a text. -/
def isFatal : Kind → Bool
| lexical | grammatical | semantic => false
| unexpectedEnd | tooManyErrors | unreadable => true

/- The name of a kind in messages. -/
def label : Kind → String
| lexical => "lexical error"
| grammatical => "syntax error"
| semantic => "warning"
| unexpectedEnd => "unexpected end of file"
| tooManyErrors => "too many errors"
| unreadable => "i/o error"

end Kind

end Diagnostic

------------------------------------------------------------
-- Diagnostics
------------------------------------------------------------

/-
  A problem and its place.  Line zero says that the problem has
  no place in a text.
-/
structure Diagnostic where
  kind : Diagnostic.Kind
  message : String
  location : Location
deriving DecidableEq, Repr, Inhabited

namespace Diagnostic

/- The text could not be read at all. -/
def unreadable (message : String) : Diagnostic where
  kind := .unreadable
  message := message
  location := ⟨0, 0, 0⟩

/- A diagnostic ends the reading when its kind does. -/
def isFatal (d : Diagnostic) : Bool :=
  d.kind.isFatal

/- A diagnostic as one line, with its place if it has one. -/
def text (d : Diagnostic) : String :=
  let problem := d.kind.label ++ ": " ++ d.message
  if d.location.line = 0 then
    problem
  else
    toString d.location.line ++ ":" ++
      toString d.location.column ++ ": " ++ problem

end Diagnostic

end DotLang
