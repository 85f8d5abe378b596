import DotLang.Text.Blank
import DotLang.Location

/-
  This file defines the cursor that walks over a source text
  and counts lines and columns.

  A line feed belongs to the line that it ends: the count of
  lines grows when the cursor leaves it.  Past the last
  character the cursor shows the null character and stays
  where it is.  A null character that ends the text counts as
  the end as well.

  Key definitions include:
    * `Cursor`
    * `Cursor.start`
    * `Cursor.advance`
    * `Cursor.advanceBy`
    * `Cursor.atEnd`
    * `Cursor.skipBlanks`
    * `Cursor.skipLine`
    * `Cursor.remaining`
-/

------------------------------------------------------------
-- Cursors
------------------------------------------------------------

namespace DotLang

/-
  A cursor holds the character that it is on, the characters
  after that one, and where it is.  The offset counts the
  characters up to and including the current one.
-/
structure Cursor where
  current : Char
  rest : List Char
  line : Nat
  column : Nat
  offset : Nat
deriving DecidableEq, Repr, Inhabited

namespace Cursor

/- Move to the next character. -/
def advance (c : Cursor) : Cursor :=
  let line := if c.current = '\n' then c.line + 1 else c.line
  let column := if c.current = '\n' then 0 else c.column
  match c.rest with
  | [] =>
      { current := '\x00'
        rest := []
        line := line
        column :=
          if c.current = '\x00' then column else column + 1
        offset := c.offset }
  | next :: rest =>
      { current := next
        rest := rest
        line := line
        column := column + 1
        offset := c.offset + 1 }

/- The cursor on the first character of a text. -/
def start (text : List Char) : Cursor :=
  advance
    { current := '\x00'
      rest := text
      line := 1
      column := 0
      offset := 0 }

/- Move over a number of characters. -/
def advanceBy : Nat → Cursor → Cursor
| 0, c => c
| n + 1, c => advanceBy n c.advance

/- There is a character after the current one. -/
def hasNext (c : Cursor) : Bool :=
  !c.rest.isEmpty

/- The cursor went past the last character. -/
def atEnd (c : Cursor) : Bool :=
  c.current = '\x00' && c.rest.isEmpty

/- The character after the current one. -/
def peek (c : Cursor) : Char :=
  c.rest.headD '\x00'

/- The current character and all that follow it. -/
def ahead (c : Cursor) : List Char :=
  c.current :: c.rest

/- Where the cursor is. -/
def location (c : Cursor) : Location where
  line := c.line
  column := c.column
  offset := c.offset

------------------------------------------------------------
-- Skipping
------------------------------------------------------------

/- Move over the characters ahead that satisfy a test. -/
def skipWhile
    (test : Char → Bool)
    (c : Cursor) : Cursor :=
  advanceBy (c.ahead.takeWhile test).length c

/- Move over the blanks ahead. -/
def skipBlanks (c : Cursor) : Cursor :=
  c.skipWhile isBlank

/- Move to the start of the next line, or to the end. -/
def skipLine (c : Cursor) : Cursor :=
  let c := c.skipWhile (· ≠ '\n')
  if c.current = '\n' then c.advance else c

------------------------------------------------------------
-- Progress
------------------------------------------------------------

/- The number of moves before the cursor is at the end. -/
def remaining (c : Cursor) : Nat :=
  if c.atEnd then 0 else c.rest.length + 1

/- What remains is at most the current character and the rest. -/
theorem remaining_le
    (c : Cursor) :
    c.remaining ≤ c.rest.length + 1 := by
  unfold remaining
  split <;> omega

/- After a move only characters behind the current one remain. -/
theorem remaining_advance_le
    (c : Cursor) :
    c.advance.remaining ≤ c.rest.length := by
  cases hRest : c.rest with
  | nil =>
      simp [advance, remaining, atEnd, hRest]
  | cons d rest =>
      have hLe := c.advance.remaining_le
      simpa [advance, hRest] using hLe

/- A move away from a place that is not the end is progress. -/
theorem remaining_advance_lt
    {c : Cursor}
    (hEnd : c.atEnd = false) :
    c.advance.remaining < c.remaining := by
  have hLe := c.remaining_advance_le
  simp only [remaining, hEnd] at hLe ⊢
  simp only [Bool.false_eq_true, if_false]
  omega

/- A move never adds to what remains. -/
theorem remaining_advance_le_remaining
    (c : Cursor) :
    c.advance.remaining ≤ c.remaining := by
  cases hEnd : c.atEnd with
  | false => exact Nat.le_of_lt (remaining_advance_lt hEnd)
  | true =>
      have hRest : c.rest = [] := by
        simp [atEnd] at hEnd
        exact hEnd.2
      have hLe := c.remaining_advance_le
      simp [hRest] at hLe
      omega

/- Moves never add to what remains. -/
theorem remaining_advanceBy_le
    (n : Nat)
    (c : Cursor) :
    (advanceBy n c).remaining ≤ c.remaining := by
  induction n generalizing c with
  | zero => exact Nat.le_refl _
  | succ n ih =>
      exact Nat.le_trans (ih c.advance)
        c.remaining_advance_le_remaining

/- At least one move away from what is not the end is progress. -/
theorem remaining_advanceBy_lt
    {n : Nat}
    {c : Cursor}
    (hn : 0 < n)
    (hEnd : c.atEnd = false) :
    (advanceBy n c).remaining < c.remaining := by
  cases n with
  | zero => omega
  | succ n =>
      exact Nat.lt_of_le_of_lt
        (remaining_advanceBy_le n c.advance)
        (remaining_advance_lt hEnd)

end Cursor

end DotLang
