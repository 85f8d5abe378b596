import DotLang.Text.Name
import DotLang.Token

/-
  This file defines how identifiers are written: bare if they
  read back as they are, and in quotes otherwise.

  Key definitions include:
    * `escapeQuotes`
    * `quoteIdentifier`
-/

------------------------------------------------------------
-- Quoting
------------------------------------------------------------

namespace DotLang

/-
  Put a backslash in front of each bare quote.  Escapes stay as
  they are, and a backslash at the end is doubled.
-/
def escapeQuotes : List Char → List Char
| [] => []
| ['\\'] => ['\\', '\\']
| '\\' :: c :: rest => '\\' :: c :: escapeQuotes rest
| '"' :: rest => '\\' :: '"' :: escapeQuotes rest
| c :: rest => c :: escapeQuotes rest

/- An identifier that needs no quotes. -/
def isBare (name : String) : Bool :=
  (isPlainName name.toList && (Keyword.ofName? name).isNone) ||
    isNumeral name.toList

/- An identifier as it is written. -/
def quoteIdentifier (name : String) : String :=
  if isBare name then
    name
  else
    String.ofList ('"' :: escapeQuotes name.toList ++ ['"'])

end DotLang
