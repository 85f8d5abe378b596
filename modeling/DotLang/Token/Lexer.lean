import DotLang.Text.Name
import DotLang.Cursor
import DotLang.Token

/-
  This file defines how characters form tokens.

  Each kind of token is measured on the list of the characters
  ahead; the cursor then moves over as many.  Blanks and
  comments stand between tokens.  Quoted strings that are
  joined by plus signs are one token.

  Key definitions include:
    * `Cursor.skipComment?`
    * `Cursor.skipTrivia`
    * `Cursor.readName`
    * `Cursor.readNumeral`
    * `Cursor.readString`
    * `Cursor.readToken`
    * `Cursor.nextToken`

  That every token but the end of the file takes a character is
  proven by:
    * `Cursor.remaining_readToken_lt`
-/

------------------------------------------------------------
-- Delimited Texts
------------------------------------------------------------

namespace DotLang

/-
  The text up to an unescaped quote, and the number of
  characters it takes with that quote.  An escaped line end is
  left out; any other escape is kept as it is written.
-/
def takeQuoted : List Char → Option (List Char × Nat)
| [] => none
| '"' :: _ => some ([], 1)
| '\\' :: '\n' :: rest =>
    (takeQuoted rest).map fun found =>
      (found.1, found.2 + 2)
| '\\' :: '\r' :: '\n' :: rest =>
    (takeQuoted rest).map fun found =>
      (found.1, found.2 + 3)
| '\\' :: c :: rest =>
    (takeQuoted rest).map fun found =>
      ('\\' :: c :: found.1, found.2 + 2)
| c :: rest =>
    (takeQuoted rest).map fun found =>
      (c :: found.1, found.2 + 1)

/-
  The text up to the angle bracket that closes more brackets
  than the text opens, and the number of characters it takes
  with that bracket.  `depth` brackets are open so far.
-/
def takeMarkup : Nat → List Char → Option (List Char × Nat)
| _, [] => none
| depth, '<' :: rest =>
    (takeMarkup (depth + 1) rest).map fun found =>
      ('<' :: found.1, found.2 + 1)
| 0, '>' :: _ => some ([], 1)
| depth + 1, '>' :: rest =>
    (takeMarkup depth rest).map fun found =>
      ('>' :: found.1, found.2 + 1)
| depth, c :: rest =>
    (takeMarkup depth rest).map fun found =>
      (c :: found.1, found.2 + 1)

/-
  The number of characters up to the end of a block comment,
  the closing mark included.  An open comment takes all.
-/
def blockCommentLength : List Char → Nat
| [] => 0
| '*' :: '/' :: _ => 2
| _ :: rest => blockCommentLength rest + 1

namespace Cursor

------------------------------------------------------------
-- Trivia
------------------------------------------------------------

/-
  The cursor after the comment that starts here, if one does.
  A number sign starts a comment in the first column only.
-/
def skipComment? (c : Cursor) : Option Cursor :=
  if c.current = '/' ∧ c.peek = '/' then
    some c.skipLine
  else if c.current = '#' ∧ c.column = 1 then
    some c.skipLine
  else if c.current = '/' ∧ c.peek = '*' then
    let body := c.advance.advance
    some (advanceBy (blockCommentLength body.ahead) body)
  else
    none

/- A test that holds of the current character is progress. -/
theorem remaining_skipWhile_lt
    {test : Char → Bool}
    {c : Cursor}
    (hTest : test c.current = true)
    (hEnd : c.atEnd = false) :
    (c.skipWhile test).remaining < c.remaining := by
  apply remaining_advanceBy_lt _ hEnd
  simp [ahead, hTest]

/- A cursor that shows any other character is not at the end. -/
theorem atEnd_eq_false_of_ne
    {c : Cursor}
    (h : c.current ≠ '\x00') :
    c.atEnd = false := by
  simp [atEnd, h]

/- Leaving a line is progress unless the cursor is on its end. -/
theorem remaining_skipLine_lt
    {c : Cursor}
    (hLine : c.current ≠ '\n')
    (hEnd : c.atEnd = false) :
    c.skipLine.remaining < c.remaining := by
  have hLt : (c.skipWhile (· ≠ '\n')).remaining < c.remaining :=
    remaining_skipWhile_lt (by simpa using hLine) hEnd
  unfold skipLine
  simp only
  split
  · exact Nat.lt_of_le_of_lt
      (remaining_advance_le_remaining _) hLt
  · exact hLt

/- A comment takes at least one character. -/
theorem remaining_skipComment?_lt
    {c next : Cursor}
    (h : c.skipComment? = some next) :
    next.remaining < c.remaining := by
  unfold skipComment? at h
  split at h
  · next hSlash =>
      cases h
      apply remaining_skipLine_lt
      · simp [hSlash.1]
      · exact atEnd_eq_false_of_ne (by simp [hSlash.1])
  · split at h
    · next hSign =>
        cases h
        apply remaining_skipLine_lt
        · simp [hSign.1]
        · exact atEnd_eq_false_of_ne (by simp [hSign.1])
    · split at h
      · next hBlock =>
          cases h
          have hEnd : c.atEnd = false :=
            atEnd_eq_false_of_ne (by simp [hBlock.1])
          exact Nat.lt_of_le_of_lt
            (remaining_advanceBy_le _ _)
            (Nat.lt_of_le_of_lt
              (remaining_advance_le_remaining _)
              (remaining_advance_lt hEnd))
      · cases h

/- A blank here is left behind. -/
theorem remaining_skipBlanks_lt
    {c : Cursor}
    (h : isBlank c.current = true) :
    c.skipBlanks.remaining < c.remaining := by
  apply remaining_skipWhile_lt h
  apply atEnd_eq_false_of_ne
  intro hNull
  rw [hNull, isBlank_null] at h
  cases h

/- Move over all blanks and comments. -/
def skipTrivia (c : Cursor) : Cursor :=
  match _hComment : c.skipComment? with
  | some next => skipTrivia next
  | none =>
      if _hBlank : isBlank c.current = true then
        skipTrivia c.skipBlanks
      else
        c
termination_by c.remaining
decreasing_by
  · exact remaining_skipComment?_lt _hComment
  · exact remaining_skipBlanks_lt _hBlank

/- Trivia never add to what remains. -/
theorem remaining_skipTrivia_le
    (c : Cursor) :
    c.skipTrivia.remaining ≤ c.remaining := by
  fun_induction skipTrivia c with
  | case1 c next h ih =>
      exact Nat.le_trans ih
        (Nat.le_of_lt (remaining_skipComment?_lt h))
  | case2 c h hBlank ih =>
      exact Nat.le_trans ih
        (Nat.le_of_lt (remaining_skipBlanks_lt hBlank))
  | case3 c h hBlank =>
      exact Nat.le_refl _

------------------------------------------------------------
-- Names and Numerals
------------------------------------------------------------

/- The characters of a name from here on. -/
def readName (c : Cursor) : String × Cursor :=
  let name := c.ahead.takeWhile isNamePart
  (String.ofList name, advanceBy name.length c)

/- The characters of an unsigned numeral from here on. -/
def readNumeral (c : Cursor) : String × Cursor :=
  let numeral := takeNumeral c.ahead
  (String.ofList numeral, advanceBy numeral.length c)

------------------------------------------------------------
-- Strings
------------------------------------------------------------

/-
  The text after the quote that the cursor is on, up to the
  closing quote.  An open string takes all that is left.
-/
def readString (c : Cursor) : Option String × Cursor :=
  let body := c.advance
  match takeQuoted body.ahead with
  | some found =>
      (some (String.ofList found.1), advanceBy found.2 body)
  | none => (none, advanceBy body.ahead.length body)

/- A string never adds to what remains. -/
theorem remaining_readString_le
    (c : Cursor) :
    c.readString.2.remaining ≤ c.advance.remaining := by
  unfold readString
  simp only
  split <;> exact remaining_advanceBy_le _ _

/-
  The cursor on the next string, if a plus sign joins one to
  what was read before.
-/
def joined? (c : Cursor) : Option Cursor :=
  let plus := c.skipTrivia
  if plus.current = '+' then
    let next := plus.advance.skipTrivia
    if next.current = '"' then some next else none
  else
    none

/- A joined string stands behind its plus sign. -/
theorem remaining_joined?_lt
    {c next : Cursor}
    (h : c.joined? = some next) :
    next.remaining < c.remaining := by
  unfold joined? at h
  simp only at h
  split at h
  · next hPlus =>
      split at h
      · cases h
        have hEnd : c.skipTrivia.atEnd = false :=
          atEnd_eq_false_of_ne (by simp [hPlus])
        exact Nat.lt_of_le_of_lt (remaining_skipTrivia_le _)
          (Nat.lt_of_lt_of_le (remaining_advance_lt hEnd)
            (remaining_skipTrivia_le c))
      · cases h
  · cases h

/-
  The identifier that a text and the strings joined to it form.
  The cursor stays right behind the last string.
-/
def readJoined
    (text : String)
    (c : Cursor) : Token × Cursor :=
  match _hJoined : c.joined? with
  | none => (.identifier text, c)
  | some next =>
      match _hRead : next.readString with
      | (none, after) => (.malformed .openString, after)
      | (some more, after) => readJoined (text ++ more) after
termination_by c.remaining
decreasing_by
  have hLe := remaining_readString_le next
  rw [_hRead] at hLe
  exact Nat.lt_of_le_of_lt
    (Nat.le_trans hLe (remaining_advance_le_remaining next))
    (remaining_joined?_lt _hJoined)

/- Joined strings never add to what remains. -/
theorem remaining_readJoined_le
    (text : String)
    (c : Cursor) :
    (readJoined text c).2.remaining ≤ c.remaining := by
  fun_induction readJoined text c with
  | case1 text c h => exact Nat.le_refl _
  | case2 text c next h after hRead =>
      have hLe := remaining_readString_le next
      rw [hRead] at hLe
      exact Nat.le_of_lt (Nat.lt_of_le_of_lt
        (Nat.le_trans hLe (remaining_advance_le_remaining next))
        (remaining_joined?_lt h))
  | case3 text c next h more after hRead ih =>
      have hLe := remaining_readString_le next
      rw [hRead] at hLe
      exact Nat.le_trans ih (Nat.le_of_lt (Nat.lt_of_le_of_lt
        (Nat.le_trans hLe (remaining_advance_le_remaining next))
        (remaining_joined?_lt h)))

/- The string token that starts at a quote. -/
def readStrings (c : Cursor) : Token × Cursor :=
  match c.readString with
  | (none, after) => (.malformed .openString, after)
  | (some text, after) => readJoined text after

/- The markup token that starts at an angle bracket. -/
def readHtml (c : Cursor) : Token × Cursor :=
  let body := c.advance
  match takeMarkup 0 body.ahead with
  | some found =>
      (.html (String.ofList found.1), advanceBy found.2 body)
  | none =>
      (.malformed .openHtml, advanceBy body.ahead.length body)

/-
  The token that starts with the minus sign before the cursor:
  an edge operator or a negative numeral.
-/
def readAfterMinus (c : Cursor) : Token × Cursor :=
  if c.current = '>' then
    (.symbol .arrow, c.advance)
  else if c.current = '-' then
    (.symbol .line, c.advance)
  else if c.current.isDigit ∨ c.current = '.' then
    let numeral := c.readNumeral
    (.identifier ("-" ++ numeral.1), numeral.2)
  else
    (.malformed .loneMinus, c)

------------------------------------------------------------
-- Tokens
------------------------------------------------------------

/- The token that starts here. -/
def readToken (c : Cursor) : Token × Cursor :=
  match Symbol.ofChar? c.current with
  | some mark => (.symbol mark, c.advance)
  | none =>
      if c.current = '"' then
        c.readStrings
      else if c.current = '<' then
        c.readHtml
      else if c.current = '-' then
        c.advance.readAfterMinus
      else if c.atEnd then
        (.endOfFile, c)
      else if isNameStart c.current then
        let name := c.readName
        match Keyword.ofName? name.1 with
        | some word => (.keyword word, name.2)
        | none => (.identifier name.1, name.2)
      else if c.current.isDigit ∨ c.current = '.' then
        let numeral := c.readNumeral
        (.identifier numeral.1, numeral.2)
      else
        (.malformed (.strayCharacter c.current), c.advance)

/- The token after the trivia ahead. -/
def nextToken (c : Cursor) : Token × Cursor :=
  c.skipTrivia.readToken

------------------------------------------------------------
-- Progress
------------------------------------------------------------

/- A string token takes its opening quote. -/
private theorem remaining_readStrings_le
    (c : Cursor) :
    c.readStrings.2.remaining ≤ c.advance.remaining := by
  have hLe := remaining_readString_le c
  unfold readStrings
  split
  · next after hRead =>
      rw [hRead] at hLe
      exact hLe
  · next text after hRead =>
      rw [hRead] at hLe
      exact Nat.le_trans (remaining_readJoined_le _ _) hLe

/- A markup token takes its opening bracket. -/
private theorem remaining_readHtml_le
    (c : Cursor) :
    c.readHtml.2.remaining ≤ c.advance.remaining := by
  unfold readHtml
  simp only
  split <;> exact remaining_advanceBy_le _ _

/- What follows a minus sign never adds to what remains. -/
private theorem remaining_readAfterMinus_le
    (c : Cursor) :
    c.readAfterMinus.2.remaining ≤ c.remaining := by
  unfold readAfterMinus
  split
  · exact remaining_advance_le_remaining c
  · split
    · exact remaining_advance_le_remaining c
    · split
      · exact remaining_advanceBy_le _ _
      · exact Nat.le_refl _

/- A numeral starts with a digit or a period. -/
theorem takeNumeral_ne_nil
    {c : Char}
    {rest : List Char}
    (h : c.isDigit ∨ c = '.') :
    0 < (takeNumeral (c :: rest)).length := by
  cases hDigit : c.isDigit with
  | true =>
      unfold takeNumeral
      simp only [List.takeWhile_cons, hDigit, if_true]
      split <;> simp
  | false =>
      have hPeriod : c = '.' := by
        simpa [hDigit] using h
      subst hPeriod
      simp [takeNumeral]

/-
  Every token but the end of the file takes at least one
  character.
-/
theorem remaining_readToken_lt
    {c : Cursor}
    (hToken : c.readToken.1 ≠ .endOfFile) :
    c.readToken.2.remaining < c.remaining := by
  cases hEnd : c.atEnd with
  | true =>
      have hNull : c.current = '\x00' := by
        simp [atEnd] at hEnd
        exact hEnd.1
      exact absurd
        (by simp [readToken, hNull, Symbol.ofChar?, hEnd])
        hToken
  | false =>
      have hLt := remaining_advance_lt hEnd
      unfold readToken at hToken ⊢
      split
      · exact hLt
      · split
        · exact Nat.lt_of_le_of_lt
            (remaining_readStrings_le c) hLt
        · split
          · exact Nat.lt_of_le_of_lt
              (remaining_readHtml_le c) hLt
          · split
            · exact Nat.lt_of_le_of_lt
                (remaining_readAfterMinus_le _) hLt
            · simp only [hEnd, Bool.false_eq_true, if_false]
              split
              · next hStart =>
                  have hName :
                      c.readName.2.remaining < c.remaining := by
                    apply remaining_advanceBy_lt _ hEnd
                    simp [ahead, isNamePart, hStart]
                  split <;> exact hName
              · split
                · next hNumeral =>
                    exact remaining_advanceBy_lt
                      (takeNumeral_ne_nil hNumeral) hEnd
                · exact hLt

end Cursor

end DotLang
