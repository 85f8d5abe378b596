import DotLang.Proofs.Token.Division

/-
  This file proves that a cursor in a text knows where it is,
  whatever moves it makes, marks it takes and marks it goes back
  to, and that the places the lexer reports are those of the
  text.

  A mark keeps the current character and the place of a cursor.
  What is left to read is that of the text.

  Key definitions include:
    * `Mark`
    * `Session`
    * `Cursor.IsOn`
    * `Cursor.IsPast`
    * `Reports`
    * `KnowsPlaces`

  Key theorems include:
    * `Cursor.IsIn.restore_mark`
    * `Session.IsIn.step`
    * `Session.isIn_run`
    * `reports_place`
    * `knowsPlaces`
-/

------------------------------------------------------------
-- Marks
------------------------------------------------------------

namespace DotLang

/- What a mark keeps of a cursor. -/
structure Mark where
  current : Char
  location : Location
deriving DecidableEq, Repr, Inhabited

namespace Cursor

def mark (c : Cursor) : Mark where
  current := c.current
  location := c.location

/- The cursor that goes back to a mark in a text. -/
def restore (text : List Char) (m : Mark) : Cursor where
  current := m.current
  rest := text.drop m.location.offset
  line := m.location.line
  column := m.location.column
  offset := m.location.offset

/- A mark in the text leads back to the cursor that it is of. -/
theorem IsIn.restore_mark
    {text : List Char}
    {c : Cursor}
    (h : c.IsIn text) :
    restore text c.mark = c := by
  cases h with
  | ofIndex i hIndex => rfl
  | behind hLast =>
      have hRest :
          text.drop (Cursor.behind text).mark.location.offset = [] :=
        List.drop_length
      rw [restore, hRest]
      rfl

end Cursor

------------------------------------------------------------
-- Sessions
------------------------------------------------------------

/- What can be done with a cursor.  Marks are numbered from zero. -/
inductive Move where
| advance
| skipBlanks
| skipLine
| mark
| reset (number : Nat)
deriving DecidableEq, Repr, Inhabited

/- A cursor in a text, and the marks that were taken of it. -/
structure Session where
  text : List Char
  cursor : Cursor
  marks : List Mark
deriving DecidableEq, Repr, Inhabited

namespace Session

def start (text : List Char) : Session where
  text := text
  cursor := .start text
  marks := []

/- A mark that was never taken moves nothing. -/
def step (s : Session) : Move → Session
| .advance => { s with cursor := s.cursor.advance }
| .skipBlanks => { s with cursor := s.cursor.skipBlanks }
| .skipLine => { s with cursor := s.cursor.skipLine }
| .mark => { s with marks := s.marks ++ [s.cursor.mark] }
| .reset number =>
    match s.marks[number]? with
    | none => s
    | some m => { s with cursor := .restore s.text m }

def run (s : Session) (moves : List Move) : Session :=
  moves.foldl step s

/- The cursor and those of the marks are in the text. -/
structure IsIn (s : Session) : Prop where
  cursor : s.cursor.IsIn s.text
  marks :
    ∀ m ∈ s.marks, ∃ c : Cursor, c.IsIn s.text ∧ c.mark = m

@[simp] theorem text_step
    (s : Session)
    (move : Move) :
    (s.step move).text = s.text := by
  cases move with
  | reset number =>
      unfold step
      simp only
      split <;> rfl
  | _ => rfl

@[simp] theorem text_run
    (s : Session)
    (moves : List Move) :
    (s.run moves).text = s.text := by
  induction moves generalizing s with
  | nil => rfl
  | cons move moves ih =>
      exact (ih (s.step move)).trans (s.text_step move)

theorem isIn_start
    (text : List Char) :
    (start text).IsIn where
  cursor := Cursor.isIn_start text
  marks _ hMem := absurd hMem List.not_mem_nil

theorem IsIn.step
    {s : Session}
    (h : s.IsIn)
    (move : Move) :
    (s.step move).IsIn := by
  cases move with
  | advance => exact ⟨h.cursor.advance, h.marks⟩
  | skipBlanks =>
      exact ⟨h.cursor.of_reaches (Cursor.reaches_skipWhile _ _),
        h.marks⟩
  | skipLine =>
      exact ⟨h.cursor.of_reaches (Cursor.reaches_skipLine _),
        h.marks⟩
  | mark =>
      refine ⟨h.cursor, fun m hMem => ?_⟩
      rcases List.mem_append.mp hMem with hOld | hNew
      · exact h.marks m hOld
      · exact ⟨s.cursor, h.cursor,
          (List.mem_singleton.mp hNew).symm⟩
  | reset number =>
      unfold Session.step
      simp only
      split
      · exact h
      · next m hMark =>
          rcases h.marks m (List.mem_of_getElem? hMark) with
            ⟨c, hIn, rfl⟩
          refine ⟨?_, h.marks⟩
          simpa only [hIn.restore_mark] using hIn

theorem isIn_run
    {s : Session}
    (h : s.IsIn)
    (moves : List Move) :
    (s.run moves).IsIn := by
  induction moves generalizing s with
  | nil => exact h
  | cons move moves ih => exact ih (h.step move)

end Session

------------------------------------------------------------
-- Places of Cursors
------------------------------------------------------------

namespace Cursor

/- The cursor is on the character at an index of the text. -/
structure IsOn (text : List Char) (i : Nat) (c : Cursor) : Prop where
  offset : c.offset = i + 1
  current : text[i]? = some c.current
  rest : c.rest = text.drop (i + 1)
  line : c.line = 1 + (text.take i).count '\n'
  column : c.column = 1 + (lastLine (text.take i)).length

/- The cursor is behind the text, and stays there. -/
structure IsPast (text : List Char) (c : Cursor) : Prop where
  offset : c.offset = text.length
  current : c.current = '\x00'
  rest : c.rest = []
  line : c.line = 1 + text.count '\n'
  column : c.column = 1 + (lastLine text).length
  stays : ∀ n, advanceBy n c = c

theorem isOn_ofIndex
    {text : List Char}
    {i : Nat}
    (h : i < text.length) :
    IsOn text i (ofIndex text i) where
  offset := rfl
  current := by simp [ofIndex, h]
  rest := rfl
  line := Nat.add_comm _ _
  column := Nat.add_comm _ _

theorem advanceBy_behind
    (text : List Char)
    (n : Nat) :
    advanceBy n (behind text) = behind text := by
  induction n with
  | zero => rfl
  | succ n ih => rwa [advanceBy, advance_behind]

theorem isPast_behind
    {text : List Char}
    (h : text ≠ []) :
    IsPast text (behind text) where
  offset := rfl
  current := rfl
  rest := rfl
  line := Nat.add_comm _ _
  column := by
    simp only [behind, Location.behind, if_neg h, Nat.add_comm]
  stays := advanceBy_behind text

theorem IsIn.isOn_or_isPast
    {text : List Char}
    {c : Cursor}
    (h : c.IsIn text)
    (hSome : text ≠ []) :
    (∃ i, IsOn text i c) ∨ IsPast text c := by
  cases h with
  | ofIndex i hIndex => exact Or.inl ⟨i, isOn_ofIndex hIndex⟩
  | behind hLast => exact Or.inr (isPast_behind hSome)

end Cursor

------------------------------------------------------------
-- What the Lexer Reports
------------------------------------------------------------

/-
  Behind some characters, neither a blank nor a comment starts
  with the text.
-/
structure StartsToken (before text : List Char) : Prop where
  ne_nil : text ≠ []
  blank : ∀ c ∈ text.head?, isBlank c = false
  line : ¬ ['/', '/'] <+: text
  block : ¬ ['/', '*'] <+: text
  number : isFresh before = true → text.head? ≠ some '#'

/-
  What is reported behind some characters of a text: a token at
  the first character that is not skipped, or the end of the
  file behind the text.
-/
inductive Reports (text before : List Char) :
    Token → Location → Prop where
| token
    (gap rest : List Char)
    (token : Token)
    (hText : text = before ++ gap ++ rest)
    (hGap : IsGap (isFresh before) gap)
    (hStart : StartsToken (before ++ gap) rest)
    (hToken : token ≠ .endOfFile) :
    Reports text before token
      (.ofIndex text (before ++ gap).length)
| finish
    (rest : List Char)
    (hText : text = before ++ rest)
    (hRest : IsSkipped before rest) :
    Reports text before .endOfFile (.behind text)

namespace Cursor

/- What is skipped ends in front of neither a blank nor a comment. -/
theorem skipTrivia_spec
    (c : Cursor) :
    isBlank c.skipTrivia.current = false ∧
      c.skipTrivia.skipComment? = none := by
  fun_induction skipTrivia c with
  | case1 c next h ih => exact ih
  | case2 c h hBlank ih => exact ih
  | case3 c h hBlank => exact ⟨Bool.eq_false_iff.mpr hBlank, h⟩

theorem Faces.startsToken
    {c : Cursor}
    {before rest : List Char}
    (h : c.Faces rest)
    (hSome : rest ≠ [])
    (hFresh : decide (c.column = 1) = isFresh before)
    (hBlank : isBlank c.current = false)
    (hComment : c.skipComment? = none) :
    StartsToken before rest := by
  cases rest with
  | nil => exact absurd rfl hSome
  | cons d rest =>
      have hCurrent := h.current_cons
      refine ⟨hSome, ?_, ?_, ?_, ?_⟩
      · rintro e hHead
        cases hHead
        rwa [← hCurrent]
      · rintro ⟨more, hText⟩
        rw [← hText] at h
        simp [skipComment?, h.current_cons, h.peek_cons] at hComment
      · rintro ⟨more, hText⟩
        rw [← hText] at h
        simp [skipComment?, h.current_cons, h.peek_cons] at hComment
      · intro hStart hHead
        cases hHead
        have hColumn := of_decide_eq_true (hFresh.trans hStart)
        simp [skipComment?, hCurrent, hColumn] at hComment

end Cursor

open Cursor

theorem reports_place
    (before rest : List Char)
    (hSome : before ++ rest ≠ [])
    (hLast : (before ++ rest).getLast? ≠ some '\x00') :
    Reports (before ++ rest) before
      (place (before ++ rest) before.length).nextToken.1
      (place (before ++ rest) before.length).skipTrivia.location := by
  have hReach := reach_of_not_null hLast
  have hSpec := skipTrivia_spec (place (before ++ rest) before.length)
  have hBefore : before.length ≤ reach (before ++ rest) := by
    rw [hReach]
    exact (List.prefix_append before rest).length_le
  rcases exists_skipTrivia_place hBefore with
    ⟨gap, more, rfl, hGap, hBehind, hSkip | ⟨hOpen, hSkip⟩⟩
  · rw [nextToken, hSkip]
    rw [hSkip] at hSpec
    cases more with
    | nil =>
        have hEnd := (atEnd_place_iff hBehind).mpr (by
          rw [hReach, List.append_nil])
        rw [readToken_eq_endOfFile_iff.mpr hEnd, List.append_nil,
          place_length]
        exact .finish gap rfl hGap.isSkipped
    | cons c more =>
        rw [← List.append_assoc] at hSome hReach hBehind hSpec ⊢
        have hLt :
            (before ++ gap).length <
              (before ++ gap ++ c :: more).length := by
          simp
        have hFaces := faces_place_append (before ++ gap) (c :: more)
        rw [location_place_of_lt hLt]
        refine .token gap (c :: more) _ rfl hGap ?_ ?_
        · exact hFaces.startsToken (List.cons_ne_nil c more)
            (column_place_eq_one_iff hSome) hSpec.1 hSpec.2
        · intro hEnd
          have hAtEnd := readToken_eq_endOfFile_iff.mp hEnd
          have hAll := (atEnd_place_iff hBehind).mp hAtEnd
          omega
  · rw [nextToken, hSkip,
      readToken_eq_endOfFile_iff.mpr (atEnd_place_reach _), hReach,
      place_length]
    exact .finish _ rfl ⟨gap, more, rfl, hGap, Or.inr hOpen⟩

/-
  Cursors in the text are on one of its characters or behind
  it, and know where that is.  So do the calls of the lexer
  report where their token starts, in the stream of tokens too.
-/
structure KnowsPlaces (text : List Char) : Prop where
  cursors :
    ∀ moves,
      (∃ i, IsOn text i ((Session.start text).run moves).cursor) ∨
        IsPast text ((Session.start text).run moves).cursor
  calls :
    ∀ n,
      ∃ before,
        before <+: text ∧
          (Cursor.start text).afterCalls n =
            place text before.length ∧
          Reports text before
            ((Cursor.start text).afterCalls n).nextToken.1
            ((Cursor.start text).afterCalls n).skipTrivia.location
  tokens :
    ∀ n t,
      (TokenStream.ofText text).toList[n]? = some t →
        t.token = ((Cursor.start text).afterCalls n).nextToken.1 ∧
          t.location =
            ((Cursor.start text).afterCalls n).skipTrivia.location

theorem knowsPlaces
    {text : List Char}
    (hSome : text ≠ [])
    (hLast : text.getLast? ≠ some '\x00') :
    KnowsPlaces text where
  cursors moves := by
    have hIn := Session.isIn_run (Session.isIn_start text) moves
    have hText := Session.text_run (Session.start text) moves
    have hCursor := hIn.cursor
    rw [hText] at hCursor
    exact hCursor.isOn_or_isPast hSome
  calls n := by
    have hReaches := (Cursor.start text).reaches_afterCalls n
    rw [start_eq_place] at hReaches ⊢
    rcases hReaches.exists_place (Nat.zero_le _) with
      ⟨k, -, hk, hPlace⟩
    rw [reach_of_not_null hLast] at hk
    have hLength : (text.take k).length = k := by
      rw [List.length_take, Nat.min_eq_left hk]
    refine ⟨text.take k, List.take_prefix k text, ?_, ?_⟩
    · rw [hPlace, hLength]
    · have hReports :=
        reports_place (text.take k) (text.drop k)
          (by rwa [List.take_append_drop])
          (by rwa [List.take_append_drop])
      rwa [List.take_append_drop, hLength, ← hPlace] at hReports
  tokens n t h := by
    rw [TokenStream.ofText] at h
    exact getElem?_toList_tokens h

theorem knowsPlaces_innerNull :
    ['a', '\n', '\x00', 'b'] ≠ [] ∧
      ['a', '\n', '\x00', 'b'].getLast? ≠ some '\x00' ∧
        KnowsPlaces ['a', '\n', '\x00', 'b'] :=
  ⟨by decide, by decide, knowsPlaces (by decide) (by decide)⟩

end DotLang
