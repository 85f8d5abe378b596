/-
  This file defines how texts are laid out in lines.

  Key definitions include:
    * `spaces`
    * `unlines`
    * `joinWith`
-/

------------------------------------------------------------
-- Layout
------------------------------------------------------------

namespace DotLang

/- A number of spaces. -/
def spaces (n : Nat) : String :=
  String.ofList (List.replicate n ' ')

/- The lines of a text, each ended by a line feed. -/
def unlines (lines : List String) : String :=
  String.join (lines.map (· ++ "\n"))

/- Texts with a separator between each two of them. -/
def joinWith (separator : String) : List String → String
| [] => ""
| [text] => text
| text :: rest => text ++ separator ++ joinWith separator rest

end DotLang
