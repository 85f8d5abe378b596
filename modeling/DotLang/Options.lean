/-
  This file defines the options of reading a text.

  Key definitions include:
    * `Options`
-/

------------------------------------------------------------
-- Options
------------------------------------------------------------

namespace DotLang

/-
  `debug` asks for a line about every graph, node and edge that
  is made.  `maxErrors` is the number of broken statements that
  reading puts up with.
-/
structure Options where
  debug : Bool := false
  maxErrors : Nat := 32
deriving DecidableEq, Repr, Inhabited

end DotLang
