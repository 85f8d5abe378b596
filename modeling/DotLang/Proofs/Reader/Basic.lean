import DotLang.Parser.Basic

/-
  This file defines a parser that asks the lexer for one token
  at a time, and its smallest steps.

  The list of tokens that `Parser` works on hides the calls of
  the lexer, and its bounds hide that the loops end.  The reader
  keeps what the lexer answered, and its loops are not bounded:
  a step that does not end has no result.

  Key definitions include:
    * `Reader`
    * `Reader.call`
    * `Reader.Step`
    * `Reader.Step.many`
    * `Reader.Depth.skipRest`
-/

------------------------------------------------------------
-- Readers
------------------------------------------------------------

namespace DotLang

/-
  Where the lexer is, the token at hand, and all answers of the
  lexer so far.  Diagnostics are those of the parser.
-/
structure Reader where
  cursor : Cursor
  current : Located
  answers : List Located
  diagnostics : List Diagnostic
  maxErrors : Nat
deriving DecidableEq, Repr, Inhabited

namespace Reader

/- The reader in front of a text, before the first call. -/
def ofText
    (text : List Char)
    (options : Options) : Reader where
  cursor := Cursor.start text
  current := ⟨.symbol .colon, (Cursor.start text).location⟩
  answers := []
  diagnostics := []
  maxErrors := options.maxErrors

/- Ask the lexer for the next token. -/
def call (r : Reader) : Reader :=
  let place := r.cursor.skipTrivia.location
  let answer := r.cursor.nextToken
  { r with
    cursor := answer.2
    current := ⟨answer.1, place⟩
    answers := r.answers ++ [⟨answer.1, place⟩] }

/- The diagnostic for the token at hand. -/
def diagnostic
    (r : Reader)
    (allowed : Expectation) : Diagnostic :=
  TokenStream.unexpected ⟨[r.current], r.current.location⟩ allowed

------------------------------------------------------------
-- Steps
------------------------------------------------------------

/- A step that ends moves the reader, also where it fails. -/
abbrev Step :=
  ExceptT Diagnostic (StateT Reader Option)

/- Take the token at hand, which calls for the next one. -/
def take : Step Unit :=
  modify call

/- Look at the token at hand. -/
def peek : Step Token := do
  return (← get).current.token

/- Fail because something else is allowed here. -/
def unexpected {α : Type} (allowed : Expectation) : Step α := do
  throw ((← get).diagnostic allowed)

/- Take a token if it is at hand. -/
def accept (token : Token) : Step Bool := do
  if (← peek) = token then
    take
    return true
  else
    return false

/- Take a symbol, which has to be at hand. -/
def expect (mark : Symbol) : Step Unit := do
  if (← peek) = .symbol mark then
    take
  else
    unexpected (.symbol mark)

/- Take a name if one is at hand. -/
def acceptName : Step (Option String) := do
  match ← peek with
  | .identifier name =>
      take
      return some name
  | _ => return none

/- Take a name, which has to be at hand. -/
def expectName (allowed : Expectation) : Step String := do
  match ← peek with
  | .identifier name =>
      take
      return name
  | _ => unexpected allowed

/- Take a value, which has to be at hand. -/
def expectValue : Step Value := do
  match ← peek with
  | .identifier text =>
      take
      return .plain text
  | .html text =>
      take
      return .html text
  | _ => unexpected .value

/- Repeat a step until it has nothing more to give. -/
def Step.many
    {α : Type}
    (step : Step (Option α)) : Step (List α) := do
  match ← step with
  | none => return []
  | some first =>
      let rest ← step |>.many
      return first :: rest
partial_fixpoint

------------------------------------------------------------
-- Recovery
------------------------------------------------------------

/- How many blocks are open inside a broken statement. -/
abbrev Depth := Nat

namespace Depth

/-
  Skip one token of a broken statement.  Nothing is left to skip
  after a semicolon or at the brace that closes the block around
  the statement.
-/
def skipToken (depth : Depth) : Step (Option Depth) := do
  match ← peek with
  | .endOfFile => unexpected (.symbol .closeBrace)
  | .symbol .semicolon =>
      take
      return if depth = 0 then none else some depth
  | .symbol .openBrace =>
      take
      return some (depth + 1)
  | .symbol .closeBrace =>
      match depth with
      | 0 => return none
      | depth + 1 =>
          take
          return some depth
  | _ =>
      take
      return some depth

/- Skip the rest of a broken statement. -/
def skipRest (depth : Depth) : Step Unit := do
  match ← depth.skipToken with
  | none => return ()
  | some left => left |>.skipRest
partial_fixpoint

end Depth

/- Move behind a broken statement. -/
def synchronize : Step Unit :=
  Depth.skipRest 0

/- The diagnostic of a reader that gives up. -/
def tooManyErrors (r : Reader) : Diagnostic where
  kind := .tooManyErrors
  message :=
    "Giving up after " ++ toString r.diagnostics.length ++
      " errors"
  location := r.current.location

/-
  Keep the diagnostic of a broken statement and move behind it,
  unless there are too many by now.
-/
def recover (d : Diagnostic) : Step Unit := do
  modify fun r =>
    { r with diagnostics := r.diagnostics ++ [d] }
  let r ← get
  if r.maxErrors < r.diagnostics.length then
    throw r.tooManyErrors
  else
    synchronize

end Reader

end DotLang
