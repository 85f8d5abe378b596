import DotLang.Token.Lexer

/-
  This file relates a cursor to the text that is left in front
  of it.

  A cursor shows the null character both on a null character of
  the text and behind the last one.  A text that a cursor faces
  tells the two apart.

  Key definitions include:
    * `Cursor.Faces`

  Key theorems include:
    * `Cursor.faces_start`
    * `Cursor.Faces.advanceBy`
    * `Cursor.Faces.skipWhile`
    * `Cursor.column_advance_of_newline`
    * `Cursor.column_advanceBy_pos`
-/

------------------------------------------------------------
-- Facing a Text
------------------------------------------------------------

namespace DotLang

namespace Cursor

/-
  The text is what is left for the cursor to read, the current
  character included.
-/
def Faces (c : Cursor) (text : List Char) : Prop :=
  c.current = text.headD '\x00' ∧ c.rest = text.tail

/- A move takes one character off the text. -/
theorem Faces.advance
    {c : Cursor}
    {text : List Char}
    (h : c.Faces text) :
    c.advance.Faces text.tail := by
  rcases h with ⟨_, hRest⟩
  cases hTail : text.tail with
  | nil => simp [Faces, Cursor.advance, hRest, hTail]
  | cons d rest => simp [Faces, Cursor.advance, hRest, hTail]

/- A cursor starts in front of the whole text. -/
theorem faces_start
    (text : List Char) :
    (start text).Faces text := by
  have hBefore :
      Faces
        { current := '\x00', rest := text, line := 1,
          column := 0, offset := 0 } ('\x00' :: text) :=
    ⟨rfl, rfl⟩
  exact hBefore.advance

/- Moves take as many characters off the text. -/
theorem Faces.advanceBy
    {c : Cursor}
    {text : List Char}
    (h : c.Faces text)
    (n : Nat) :
    (advanceBy n c).Faces (text.drop n) := by
  induction n generalizing c text with
  | zero => simpa [Cursor.advanceBy] using h
  | succ n ih =>
      have hNext := ih h.advance
      simpa [Cursor.advanceBy] using hNext

/- Moves over the first of two texts lead to the second. -/
theorem Faces.advanceBy_length
    {c : Cursor}
    {text rest : List Char}
    (h : c.Faces (text ++ rest)) :
    (Cursor.advanceBy text.length c).Faces rest := by
  simpa using h.advanceBy text.length

/- Moves add up. -/
theorem advanceBy_add
    (m n : Nat)
    (c : Cursor) :
    advanceBy (m + n) c = advanceBy n (advanceBy m c) := by
  induction m generalizing c with
  | zero => simp [advanceBy]
  | succ m ih =>
      have hNext := ih c.advance
      simpa [Nat.succ_add, advanceBy] using hNext

/- The characters ahead are the text, unless it is empty. -/
theorem Faces.ahead_cons
    {c : Cursor}
    {d : Char}
    {rest : List Char}
    (h : c.Faces (d :: rest)) :
    c.ahead = d :: rest := by
  rcases h with ⟨hCurrent, hRest⟩
  simpa [ahead] using And.intro hCurrent hRest

/- Behind the last character there is a null character. -/
theorem Faces.ahead_nil
    {c : Cursor}
    (h : c.Faces []) :
    c.ahead = ['\x00'] := by
  rcases h with ⟨hCurrent, hRest⟩
  simpa [ahead] using And.intro hCurrent hRest

/- The current character is the first one of the text. -/
theorem Faces.current_cons
    {c : Cursor}
    {d : Char}
    {rest : List Char}
    (h : c.Faces (d :: rest)) :
    c.current = d :=
  h.1

/- A cursor in front of the empty text is at the end. -/
theorem Faces.atEnd_nil
    {c : Cursor}
    (h : c.Faces []) :
    c.atEnd = true := by
  rcases h with ⟨hCurrent, hRest⟩
  simp at hCurrent hRest
  simp [atEnd, hCurrent, hRest]

/- The next character but one is the second one of the text. -/
theorem Faces.peek_cons
    {c : Cursor}
    {d e : Char}
    {rest : List Char}
    (h : c.Faces (d :: e :: rest)) :
    c.peek = e := by
  simp [peek, h.2]

/- A character that is not null is the first one of the text. -/
theorem Faces.eq_cons
    {c : Cursor}
    {text : List Char}
    (h : c.Faces text)
    (hNull : c.current ≠ '\x00') :
    ∃ rest, text = c.current :: rest := by
  cases text with
  | nil => exact absurd h.1 hNull
  | cons d rest => exact ⟨rest, by rw [h.current_cons]⟩

/- So is the next one the second. -/
theorem Faces.eq_cons_cons
    {c : Cursor}
    {text : List Char}
    (h : c.Faces text)
    (hNull : c.current ≠ '\x00')
    (hPeek : c.peek ≠ '\x00') :
    ∃ rest, text = c.current :: c.peek :: rest := by
  rcases h.eq_cons hNull with ⟨rest, hText⟩
  cases rest with
  | nil =>
      rw [hText] at h
      exact absurd (by simp [peek, h.2]) hPeek
  | cons e rest =>
      rw [hText] at h
      exact ⟨rest, by rw [hText, h.peek_cons]⟩

------------------------------------------------------------
-- Skipping Characters
------------------------------------------------------------

/-
  A test that the null character fails measures the text itself,
  also when nothing is left of it.
-/
theorem Faces.takeWhile_ahead
    {c : Cursor}
    {text : List Char}
    {test : Char → Bool}
    (h : c.Faces text)
    (hNull : test '\x00' = false) :
    c.ahead.takeWhile test = text.takeWhile test := by
  cases text with
  | nil => simp [h.ahead_nil, hNull]
  | cons d rest => rw [h.ahead_cons]

/- Skipping moves over the first characters that pass. -/
theorem Faces.skipWhile
    {c : Cursor}
    {text : List Char}
    {test : Char → Bool}
    (h : c.Faces text)
    (hNull : test '\x00' = false) :
    c.skipWhile test =
      Cursor.advanceBy (text.takeWhile test).length c := by
  unfold Cursor.skipWhile
  rw [h.takeWhile_ahead hNull]

/- Nothing is skipped when the current character fails. -/
theorem skipWhile_of_current
    {c : Cursor}
    {test : Char → Bool}
    (h : test c.current = false) :
    c.skipWhile test = c := by
  simp [Cursor.skipWhile, ahead, h, Cursor.advanceBy]

/- A current character that passes is skipped first. -/
theorem Faces.skipWhile_cons
    {c : Cursor}
    {d : Char}
    {rest : List Char}
    {test : Char → Bool}
    (h : c.Faces (d :: rest))
    (hTest : test d = true)
    (hNull : test '\x00' = false) :
    c.skipWhile test = c.advance.skipWhile test := by
  have hNext : c.advance.Faces rest := h.advance
  rw [h.skipWhile hNull, hNext.skipWhile hNull,
    List.takeWhile_cons_of_pos hTest]
  rfl

------------------------------------------------------------
-- Columns
------------------------------------------------------------

/- Behind a line feed the first column comes. -/
theorem column_advance_of_newline
    {c : Cursor}
    (h : c.current = '\n') :
    c.advance.column = 1 := by
  unfold advance
  simp only [h]
  split <;> simp

/- Within a line, each character takes a column. -/
theorem Faces.column_advance
    {c : Cursor}
    {d : Char}
    {rest : List Char}
    (h : c.Faces (d :: rest))
    (hFeed : d ≠ '\n')
    (hNull : d ≠ '\x00') :
    c.advance.column = c.column + 1 := by
  have hCurrent : c.current = d := h.current_cons
  unfold Cursor.advance
  simp only [hCurrent, if_neg hFeed, if_neg hNull]
  split <;> rfl

/- Only line feeds lead to the first column. -/
theorem Faces.column_advance_eq_one_iff
    {c : Cursor}
    {d : Char}
    {rest : List Char}
    (h : c.Faces (d :: rest))
    (hNull : d ≠ '\x00')
    (hColumn : 0 < c.column) :
    c.advance.column = 1 ↔ d = '\n' := by
  constructor
  · intro hFirst
    by_cases hFeed : d = '\n'
    · exact hFeed
    · have hNext := h.column_advance hFeed hNull
      omega
  · intro hFeed
    exact column_advance_of_newline (h.current_cons.trans hFeed)

/- Columns count from one, wherever a cursor goes. -/
theorem column_advance_pos
    {c : Cursor}
    (h : 0 < c.column) :
    0 < c.advance.column := by
  unfold advance
  simp only
  split
  · by_cases hNull : c.current = '\x00' <;> simp_all
  · exact Nat.succ_pos _

theorem column_advanceBy_pos
    {c : Cursor}
    (n : Nat)
    (h : 0 < c.column) :
    0 < (advanceBy n c).column := by
  induction n generalizing c with
  | zero => exact h
  | succ n ih => exact ih (column_advance_pos h)

/- A text that is not empty starts in the first column. -/
theorem column_start
    {text : List Char}
    (h : text ≠ []) :
    (start text).column = 1 := by
  cases text with
  | nil => exact absurd rfl h
  | cons c rest => simp [start, advance]

end Cursor

end DotLang
