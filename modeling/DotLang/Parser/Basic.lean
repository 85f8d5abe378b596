import DotLang.Attribute
import DotLang.Diagnostic
import DotLang.Options
import DotLang.Token.Stream

/-
  This file defines the state of the parser and its smallest
  steps.

  A step that fails leaves the parser where it failed, so that
  the statements that follow can still be read.

  Key definitions include:
    * `Expectation`
    * `Parser`
    * `Parser.Step`
    * `Parser.expect`
    * `Parser.many`
    * `Parser.recover`
-/

------------------------------------------------------------
-- Expectations
------------------------------------------------------------

namespace DotLang

/- What the grammar allows at a place. -/
inductive Expectation where
| header
| symbol (mark : Symbol)
| statement
| propertyName
| value
| nodeOrSubgraph
| nodeName
| portName
| compassPoint
deriving DecidableEq, Repr, Inhabited

/- How messages speak of what is allowed. -/
def Expectation.describe : Expectation → String
| header => "(graph|digraph)"
| symbol mark => "'" ++ mark.spelling ++ "'"
| statement => "a statement"
| propertyName => "property name"
| value => "value after assignment"
| nodeOrSubgraph => "node name or subgraph"
| nodeName => "node name"
| portName => "port name"
| compassPoint => "compass point"

/-
  The diagnostic for a stream whose next token is not what the
  grammar allows.
-/
def TokenStream.unexpected
    (s : TokenStream)
    (allowed : Expectation) : Diagnostic :=
  let message :=
    "Expected " ++ allowed.describe ++ ", found " ++
      s.current.describe
  match s.current with
  | .malformed cause => ⟨.lexical, cause.message, s.location⟩
  | .endOfFile => ⟨.unexpectedEnd, message, s.location⟩
  | _ => ⟨.grammatical, message, s.location⟩

------------------------------------------------------------
-- Parser States
------------------------------------------------------------

/-
  The tokens that are left, the diagnostics of the statements
  that were given up, and how many of these are allowed.
-/
structure Parser where
  stream : TokenStream
  diagnostics : List Diagnostic
  maxErrors : Nat
deriving DecidableEq, Repr, Inhabited

namespace Parser

/-
  The parser in front of a text.  Until it moves, it shows a
  colon at the place of the first character.
-/
def ofText
    (text : List Char)
    (options : Options) : Parser :=
  let stream := TokenStream.ofText text
  let first := (Cursor.start text).location
  { stream :=
      { stream with
        tokens := ⟨.symbol .colon, first⟩ :: stream.tokens }
    diagnostics := []
    maxErrors := options.maxErrors }

/- The token that is next. -/
def current (p : Parser) : Token :=
  p.stream.current

/- The parser behind the token that is next. -/
def advance (p : Parser) : Parser :=
  { p with stream := p.stream.advance }

/-
  More than the number of tokens that are left, which bounds
  how often anything can repeat.
-/
def bound (p : Parser) : Nat :=
  p.stream.tokens.length + 1

------------------------------------------------------------
-- Steps
------------------------------------------------------------

/- A step moves the parser and gives a result or a diagnostic. -/
abbrev Step :=
  EStateM Diagnostic Parser

/- Take the token that is next. -/
def take : Step Token := do
  let p ← get
  set p.advance
  return p.current

/- Look at the token that is next. -/
def peek : Step Token := do
  return (← get).current

/- Fail because something else is allowed here. -/
def unexpected {α : Type} (allowed : Expectation) : Step α := do
  throw ((← get).stream.unexpected allowed)

/- Take a token if it is next. -/
def accept (token : Token) : Step Bool := do
  if (← peek) = token then
    let _ ← take
    return true
  else
    return false

/- Take a symbol, which has to be next. -/
def expect (mark : Symbol) : Step Unit := do
  if (← peek) = .symbol mark then
    let _ ← take
  else
    unexpected (.symbol mark)

/- Take a name if one is next. -/
def acceptName : Step (Option String) := do
  match ← peek with
  | .identifier name =>
      let _ ← take
      return some name
  | _ => return none

/- Take a name, which has to be next. -/
def expectName (allowed : Expectation) : Step String := do
  match ← peek with
  | .identifier name =>
      let _ ← take
      return name
  | _ => unexpected allowed

/- Take a value, which has to be next. -/
def expectValue : Step Value := do
  match ← peek with
  | .identifier text =>
      let _ ← take
      return .plain text
  | .html text =>
      let _ ← take
      return .html text
  | _ => unexpected .value

/-
  Repeat a step until it has nothing more to give, `bound`
  times at most.
-/
def many
    {α : Type}
    (step : Step (Option α)) : Nat → Step (List α)
| 0 => return []
| bound + 1 => do
    match ← step with
    | none => return []
    | some first =>
        let rest ← many step bound
        return first :: rest

------------------------------------------------------------
-- Recovery
------------------------------------------------------------

/-
  The tokens behind a broken statement: after its semicolon, or
  at the brace that closes the block around it.  Blocks inside
  the statement, of which `depth` are open, are skipped whole.
-/
def skipBroken : Nat → List Located → Option (List Located)
| _, [] => none
| depth, t :: rest =>
    match t.token with
    | .symbol .semicolon =>
        if depth = 0 then some rest else skipBroken depth rest
    | .symbol .openBrace => skipBroken (depth + 1) rest
    | .symbol .closeBrace =>
        match depth with
        | 0 => some (t :: rest)
        | depth + 1 => skipBroken depth rest
    | _ => skipBroken depth rest

/- Move behind a broken statement. -/
def synchronize : Step Unit := do
  let p ← get
  match skipBroken 0 p.stream.tokens with
  | some rest =>
      set { p with stream := { p.stream with tokens := rest } }
  | none =>
      set { p with stream := { p.stream with tokens := [] } }
      unexpected (.symbol .closeBrace)

/- The diagnostic of a parser that gives up. -/
def tooManyErrors (p : Parser) : Diagnostic where
  kind := .tooManyErrors
  message :=
    "Giving up after " ++ toString p.diagnostics.length ++
      " errors"
  location := p.stream.location

/-
  Keep the diagnostic of a broken statement and move behind it,
  unless there are too many by now.
-/
def recover (d : Diagnostic) : Step Unit := do
  modify fun p =>
    { p with diagnostics := p.diagnostics ++ [d] }
  let p ← get
  if p.maxErrors < p.diagnostics.length then
    throw p.tooManyErrors
  else
    synchronize

end Parser

end DotLang
