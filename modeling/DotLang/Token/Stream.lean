import DotLang.Token.Lexer

/-
  This file defines the stream of tokens of a text, each with
  its place.

  Key definitions include:
    * `Located`
    * `TokenStream`
    * `TokenStream.ofText`
    * `TokenStream.current`
    * `TokenStream.advance`
-/

------------------------------------------------------------
-- Token Streams
------------------------------------------------------------

namespace DotLang

/- A token and the place of its first character. -/
structure Located where
  token : Token
  location : Location
deriving DecidableEq, Repr, Inhabited

/-
  The tokens that are left, and the place where the text ends.
  The end of the file is not among the tokens.
-/
structure TokenStream where
  tokens : List Located
  finish : Location
deriving DecidableEq, Repr, Inhabited

/- The tokens from a cursor to the end of its text. -/
def Cursor.tokens (c : Cursor) : TokenStream :=
  let first := c.skipTrivia
  if _hToken : first.readToken.1 ≠ .endOfFile then
    let following := first.readToken.2.tokens
    { following with
      tokens :=
        ⟨first.readToken.1, first.location⟩ :: following.tokens }
  else
    { tokens := [], finish := first.location }
termination_by c.remaining
decreasing_by
  exact Nat.lt_of_lt_of_le
    (Cursor.remaining_readToken_lt _hToken)
    (Cursor.remaining_skipTrivia_le c)

namespace TokenStream

/- The tokens of a text. -/
def ofText (text : List Char) : TokenStream :=
  (Cursor.start text).tokens

/- The token that is next. -/
def current (s : TokenStream) : Token :=
  match s.tokens with
  | [] => .endOfFile
  | t :: _ => t.token

/- The place of the token that is next. -/
def location (s : TokenStream) : Location :=
  match s.tokens with
  | [] => s.finish
  | t :: _ => t.location

/- The stream without the token that is next. -/
def advance (s : TokenStream) : TokenStream :=
  { s with tokens := s.tokens.tail }

/- All tokens with their places, the end of the file included. -/
def toList (s : TokenStream) : List Located :=
  s.tokens ++ [⟨.endOfFile, s.finish⟩]

end TokenStream

end DotLang
