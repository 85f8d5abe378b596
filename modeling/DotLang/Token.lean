/-
  This file defines the tokens of the graph language and their
  description in messages.

  Key definitions include:
    * `Keyword`
    * `Keyword.ofName?`
    * `Symbol`
    * `Malformed`
    * `Token`
    * `Token.describe`
-/

------------------------------------------------------------
-- Keywords
------------------------------------------------------------

namespace DotLang

/- The reserved words. -/
inductive Keyword where
| graph
| node
| edge
| digraph
| strict
| subgraph
deriving DecidableEq, Repr, Inhabited

namespace Keyword

/- A keyword in lower case. -/
def spelling : Keyword → String
| graph => "graph"
| node => "node"
| edge => "edge"
| digraph => "digraph"
| strict => "strict"
| subgraph => "subgraph"

/- All keywords. -/
def all : List Keyword :=
  [graph, node, edge, digraph, strict, subgraph]

/- The keyword that a name spells, in any mix of letter cases. -/
def ofName? (name : String) : Option Keyword :=
  let lower := name.toList.map Char.toLower
  all.find? fun keyword => keyword.spelling.toList = lower

end Keyword

------------------------------------------------------------
-- Symbols
------------------------------------------------------------

/- Punctuation marks and edge operators. -/
inductive Symbol where
| equal
| colon
| comma
| semicolon
| arrow
| line
| openBracket
| closeBracket
| openBrace
| closeBrace
deriving DecidableEq, Repr, Inhabited

namespace Symbol

/- A symbol as it is written. -/
def spelling : Symbol → String
| equal => "="
| colon => ":"
| comma => ","
| semicolon => ";"
| arrow => "->"
| line => "--"
| openBracket => "["
| closeBracket => "]"
| openBrace => "\x7b"
| closeBrace => "\x7d"

/- The symbol that is a single character. -/
def ofChar? : Char → Option Symbol
| '=' => some equal
| ';' => some semicolon
| ':' => some colon
| '[' => some openBracket
| ']' => some closeBracket
| '\x7b' => some openBrace
| '\x7d' => some closeBrace
| ',' => some comma
| _ => none

end Symbol

------------------------------------------------------------
-- Malformed Tokens
------------------------------------------------------------

/- The ways in which characters fail to form a token. -/
inductive Malformed where
| openString
| openHtml
| loneMinus
| strayCharacter (c : Char)
deriving DecidableEq, Repr, Inhabited

/- The message for a malformed token. -/
def Malformed.message : Malformed → String
| openString => "Unterminated string"
| openHtml => "Unterminated html string"
| loneMinus => "Expected '->' or '--'"
| strayCharacter c =>
    "Unexpected character '" ++ c.toString ++ "'"

------------------------------------------------------------
-- Tokens
------------------------------------------------------------

/- A token.  Names and markup are kept without their quotes. -/
inductive Token where
| endOfFile
| identifier (name : String)
| html (text : String)
| keyword (word : Keyword)
| symbol (mark : Symbol)
| malformed (cause : Malformed)
deriving DecidableEq, Repr, Inhabited

/- How messages speak of a token. -/
def Token.describe : Token → String
| endOfFile => "end of file"
| identifier name => "identifier \"" ++ name ++ "\""
| html _ => "html string"
| keyword word => "'" ++ word.spelling ++ "'"
| symbol mark => "'" ++ mark.spelling ++ "'"
| malformed cause => cause.message

end DotLang
