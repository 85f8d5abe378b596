/-
  This file defines attributes: names with a value that is
  plain text or markup.

  Key definitions include:
    * `Value`
    * `Value.text`
    * `Value.display`
    * `Attribute`
-/

------------------------------------------------------------
-- Values
------------------------------------------------------------

namespace DotLang

/- A value.  Markup is kept without its outer brackets. -/
inductive Value where
| plain (text : String)
| html (text : String)
deriving DecidableEq, Repr, Inhabited

namespace Value

/- The text of a value without any brackets. -/
def text : Value → String
| plain text => text
| html text => text

/- The text of a value, with the brackets of markup. -/
def display : Value → String
| plain text => text
| html text => "<" ++ text ++ ">"

end Value

------------------------------------------------------------
-- Attributes
------------------------------------------------------------

/- A name and its value. -/
structure Attribute where
  name : String
  value : Value
deriving DecidableEq, Repr, Inhabited

end DotLang
