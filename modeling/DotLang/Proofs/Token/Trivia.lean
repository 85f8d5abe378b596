import DotLang.Proofs.Cursor
import Mathlib.Data.List.TakeWhile

/-
  This file defines what may stand between tokens, as a language
  of its own, and proves that the lexer skips exactly that.

  The lexer knows the blanks of all scripts.  Trivia have those
  of ASCII only, so that none of them is a part of a name.

  Key definitions include:
    * `IsComment`
    * `IsOpenComment`
    * `IsGap`
    * `IsTrivia`
    * `Cursor.AtToken`

  Key theorems include:
    * `IsGap.skipTrivia`
    * `Cursor.Faces.exists_isGap`
    * `IsTrivia.skipTrivia`
    * `Cursor.AtToken.skipTrivia`
-/

------------------------------------------------------------
-- Trivia
------------------------------------------------------------

namespace DotLang

/-
  A comment.  The first flag tells whether it starts in the
  first column, the only place for one with a number sign.  The
  second flag tells whether what is behind it starts there.
-/
inductive IsComment : Bool → List Char → Bool → Prop where
| line
    (fresh : Bool)
    (body : List Char)
    (hBody : '\n' ∉ body) :
    IsComment fresh ('/' :: '/' :: body ++ ['\n']) true
| block
    (fresh : Bool)
    (body : List Char)
    (hBody : ¬ ['*', '/'] <:+: body) :
    IsComment fresh ('/' :: '*' :: body ++ ['*', '/']) false
| number
    (body : List Char)
    (hBody : '\n' ∉ body) :
    IsComment true ('#' :: body ++ ['\n']) true

/-
  A comment that nothing ends.  The flag tells whether it starts
  in the first column.
-/
inductive IsOpenComment : Bool → List Char → Prop where
| line
    (fresh : Bool)
    (body : List Char)
    (hBody : '\n' ∉ body) :
    IsOpenComment fresh ('/' :: '/' :: body)
| block
    (fresh : Bool)
    (body : List Char)
    (hBody : ¬ ['*', '/'] <:+: body) :
    IsOpenComment fresh ('/' :: '*' :: body)
| number
    (body : List Char)
    (hBody : '\n' ∉ body) :
    IsOpenComment true ('#' :: body)

/-
  Blanks and comments, one after the other.  The flag tells
  whether they start in the first column.
-/
inductive IsGap : Bool → List Char → Prop where
| nil
    (fresh : Bool) :
    IsGap fresh []
| blank
    (fresh : Bool)
    (c : Char)
    (rest : List Char)
    (hBlank : isBlank c = true)
    (hRest : IsGap (c = '\n') rest) :
    IsGap fresh (c :: rest)
| comment
    (fresh after : Bool)
    (text rest : List Char)
    (hText : IsComment fresh text after)
    (hRest : IsGap after rest) :
    IsGap fresh (text ++ rest)

/- A blank character of ASCII. -/
def isAsciiBlank (c : Char) : Bool :=
  isBlank c && c.toNat < 128

/-
  A gap with no blanks but those of ASCII.  The flag tells
  whether it starts in the first column.
-/
inductive IsTrivia : Bool → List Char → Prop where
| nil
    (fresh : Bool) :
    IsTrivia fresh []
| blank
    (fresh : Bool)
    (c : Char)
    (rest : List Char)
    (hBlank : isAsciiBlank c = true)
    (hRest : IsTrivia (c = '\n') rest) :
    IsTrivia fresh (c :: rest)
| line
    (fresh : Bool)
    (body rest : List Char)
    (hBody : '\n' ∉ body)
    (hRest : IsTrivia true rest) :
    IsTrivia fresh ('/' :: '/' :: body ++ '\n' :: rest)
| block
    (fresh : Bool)
    (body rest : List Char)
    (hBody : ¬ ['*', '/'] <:+: body)
    (hRest : IsTrivia false rest) :
    IsTrivia fresh ('/' :: '*' :: body ++ '*' :: '/' :: rest)
| number
    (body rest : List Char)
    (hBody : '\n' ∉ body)
    (hRest : IsTrivia true rest) :
    IsTrivia true ('#' :: body ++ '\n' :: rest)

theorem IsTrivia.isGap
    {fresh : Bool}
    {text : List Char}
    (h : IsTrivia fresh text) :
    IsGap fresh text := by
  induction h with
  | nil fresh => exact .nil fresh
  | blank fresh c rest hBlank hRest ih =>
      simp only [isAsciiBlank, Bool.and_eq_true] at hBlank
      exact .blank fresh c rest hBlank.1 ih
  | line fresh body rest hBody hRest ih =>
      simpa using IsGap.comment fresh true _ rest
        (.line fresh body hBody) ih
  | block fresh body rest hBody hRest ih =>
      simpa using IsGap.comment fresh false _ rest
        (.block fresh body hBody) ih
  | number body rest hBody hRest ih =>
      simpa using IsGap.comment true true _ rest
        (.number body hBody) ih

------------------------------------------------------------
-- Steps over Trivia
------------------------------------------------------------

namespace Cursor

/- A comment is skipped first. -/
theorem skipTrivia_of_comment
    {c next : Cursor}
    (h : c.skipComment? = some next) :
    c.skipTrivia = next.skipTrivia := by
  rw [skipTrivia]
  split
  · next found hFound =>
      rw [h] at hFound
      cases hFound
      rfl
  · next hNone =>
      rw [h] at hNone
      cases hNone

/- Where no comment starts, the blanks are skipped first. -/
theorem skipTrivia_of_no_comment
    {c : Cursor}
    (h : c.skipComment? = none) :
    c.skipTrivia =
      if isBlank c.current = true then
        c.skipBlanks.skipTrivia
      else
        c := by
  rw [skipTrivia]
  split
  · next found hFound =>
      rw [h] at hFound
      cases hFound
  · split <;> simp_all

/- A comment starts with a slash or with a number sign. -/
theorem skipComment?_eq_none
    {c : Cursor}
    (hSlash : c.current ≠ '/')
    (hSign : c.current ≠ '#') :
    c.skipComment? = none := by
  simp [skipComment?, hSlash, hSign]

/- Neither mark of a comment is blank. -/
theorem ne_of_isBlank
    {c : Char}
    (h : isBlank c = true) :
    c ≠ '/' ∧ c ≠ '#' := by
  constructor
  · rintro rfl
    revert h
    decide
  · rintro rfl
    revert h
    decide

/- A blank may be skipped on its own. -/
theorem skipTrivia_of_blank
    {c : Cursor}
    {d : Char}
    {rest : List Char}
    (h : c.Faces (d :: rest))
    (hBlank : isBlank d = true) :
    c.skipTrivia = c.advance.skipTrivia := by
  have hCurrent : c.current = d := h.current_cons
  have hMarks := ne_of_isBlank hBlank
  rw [skipTrivia_of_no_comment
    (skipComment?_eq_none (by rw [hCurrent]; exact hMarks.1)
      (by rw [hCurrent]; exact hMarks.2)),
    hCurrent, if_pos hBlank]
  have hSkip : c.skipBlanks = c.advance.skipBlanks :=
    h.skipWhile_cons hBlank isBlank_null
  rw [hSkip]
  -- The run of blanks may or may not go on behind this one.
  by_cases hNext : isBlank c.advance.current = true
  · have hMarks := ne_of_isBlank hNext
    rw [skipTrivia_of_no_comment
      (skipComment?_eq_none hMarks.1 hMarks.2), if_pos hNext]
  · rw [skipBlanks, skipWhile_of_current (by simpa using hNext)]

/- The end of a line comment is the next line feed. -/
theorem Faces.skipLine
    {c : Cursor}
    {line rest : List Char}
    (h : c.Faces (line ++ '\n' :: rest))
    (hLine : '\n' ∉ line) :
    c.skipLine = Cursor.advanceBy (line.length + 1) c := by
  have hTake :
      c.ahead.takeWhile (· ≠ '\n') = line := by
    have hAhead : c.ahead = line ++ '\n' :: rest := by
      cases line with
      | nil => exact h.ahead_cons
      | cons d line => exact h.ahead_cons
    rw [hAhead, List.takeWhile_append_of_pos]
    · simp
    · intro d hd
      have hNe : d ≠ '\n' := by
        rintro rfl
        exact hLine hd
      simpa using hNe
  have hFeed :
      (Cursor.advanceBy line.length c).current = '\n' :=
    (h.advanceBy_length).current_cons
  unfold Cursor.skipLine
  simp only [Cursor.skipWhile, hTake, hFeed, if_true]
  rw [advanceBy_add line.length 1 c]
  rfl

/- Behind a line comment the first column comes. -/
theorem Faces.column_advanceBy_line
    {c : Cursor}
    {line rest : List Char}
    (h : c.Faces (line ++ '\n' :: rest)) :
    (Cursor.advanceBy (line.length + 1) c).column = 1 := by
  rw [advanceBy_add line.length 1 c]
  exact column_advance_of_newline
    (h.advanceBy_length).current_cons

end Cursor

/- A block comment ends with the first mark that closes one. -/
theorem blockCommentLength_append
    {body : List Char}
    (rest : List Char)
    (hBody : ¬ ['*', '/'] <:+: body) :
    blockCommentLength (body ++ '*' :: '/' :: rest) =
      body.length + 2 := by
  induction body with
  | nil => rfl
  | cons c body ih =>
      have hTail : ¬ ['*', '/'] <:+: body := by
        intro hInfix
        exact hBody (hInfix.trans (List.suffix_cons c body).isInfix)
      have hStep :
          blockCommentLength (c :: (body ++ '*' :: '/' :: rest)) =
            blockCommentLength (body ++ '*' :: '/' :: rest) + 1 := by
        rw [blockCommentLength]
        -- The mark would have to start with the first character.
        rintro rest' rfl hRest
        cases body with
        | nil => cases hRest
        | cons d body =>
            cases hRest
            exact hBody ⟨[], body, rfl⟩
      rw [List.cons_append, hStep, ih hTail, List.length_cons]

/- A text closes a block comment if the mark is a part of it. -/
theorem exists_append_of_infix
    {text : List Char}
    (h : ['*', '/'] <:+: text) :
    ∃ body rest,
      text = body ++ '*' :: '/' :: rest ∧
        ¬ ['*', '/'] <:+: body := by
  induction text with
  | nil => simp at h
  | cons c text ih =>
      by_cases hOpen : ['*', '/'] <+: c :: text
      · rcases hOpen with ⟨rest, hRest⟩
        exact ⟨[], rest, hRest.symm, by simp⟩
      · rcases ih ((List.infix_cons_iff.mp h).resolve_left hOpen) with
          ⟨body, rest, rfl, hBody⟩
        refine ⟨c :: body, rest, rfl, ?_⟩
        rw [List.infix_cons_iff]
        rintro (hPrefix | hInfix)
        · exact hOpen (hPrefix.trans
            (List.prefix_append (c :: body) ('*' :: '/' :: rest)))
        · exact hBody hInfix

/- Without the mark all of a text belongs to the comment. -/
theorem blockCommentLength_of_not_infix
    {text : List Char}
    (h : ¬ ['*', '/'] <:+: text) :
    blockCommentLength text = text.length := by
  fun_induction blockCommentLength text with
  | case1 => rfl
  | case2 rest => exact absurd ⟨[], rest, rfl⟩ h
  | case3 c text hOpen ih =>
      have hTail : ¬ ['*', '/'] <:+: text := fun hInfix =>
        h (hInfix.trans (List.suffix_cons c text).isInfix)
      rw [ih hTail, List.length_cons]

------------------------------------------------------------
-- Skipping Trivia
------------------------------------------------------------

theorem IsComment.ne_nil
    {fresh after : Bool}
    {text : List Char}
    (h : IsComment fresh text after) :
    text ≠ [] := by
  cases h <;> simp

open Cursor in
/- A comment is skipped up to its end. -/
theorem IsComment.skipComment?
    {fresh after : Bool}
    {text rest : List Char}
    {c : Cursor}
    (h : IsComment fresh text after)
    (hFaces : c.Faces (text ++ rest))
    (hFresh : fresh = true → c.column = 1) :
    c.skipComment? = some (advanceBy text.length c) := by
  cases h with
  | line _ body hBody =>
      have hFaces' :
          c.Faces (('/' :: '/' :: body) ++ '\n' :: rest) := by
        simpa using hFaces
      have hSkip := hFaces'.skipLine (by simpa using hBody)
      simp only [Cursor.skipComment?, hFaces'.current_cons,
        hFaces'.peek_cons, hSkip]
      simp
  | block _ body hBody =>
      have hFaces' :
          c.Faces ('/' :: '*' :: (body ++ '*' :: '/' :: rest)) := by
        simpa using hFaces
      have hInside :
          c.advance.advance.Faces (body ++ '*' :: '/' :: rest) :=
        hFaces'.advance.advance
      have hAhead :
          c.advance.advance.ahead = body ++ '*' :: '/' :: rest := by
        cases body with
        | nil => exact hInside.ahead_cons
        | cons d body => exact hInside.ahead_cons
      have hLength := blockCommentLength_append rest hBody
      simp only [Cursor.skipComment?, hFaces'.current_cons,
        hFaces'.peek_cons, hAhead, hLength]
      simp [advanceBy]
  | number body hBody =>
      have hFaces' :
          c.Faces (('#' :: body) ++ '\n' :: rest) := by
        simpa using hFaces
      have hSkip := hFaces'.skipLine (by simpa using hBody)
      simp only [Cursor.skipComment?, hFaces'.current_cons,
        hFresh rfl, hSkip]
      simp

open Cursor in
/- The flag behind a comment tells where its end leads. -/
theorem IsComment.column_eq_one_iff
    {fresh after : Bool}
    {text rest : List Char}
    {c : Cursor}
    (h : IsComment fresh text after)
    (hFaces : c.Faces (text ++ rest)) :
    (advanceBy text.length c).column = 1 ↔ after = true := by
  cases h with
  | line _ body hBody =>
      have hFaces' :
          c.Faces (('/' :: '/' :: body) ++ '\n' :: rest) := by
        simpa using hFaces
      simpa using hFaces'.column_advanceBy_line
  | block _ body hBody =>
      have hClose :
          (advanceBy (body.length + 2) c).Faces
            ('*' :: '/' :: rest) := by
        simpa using hFaces.advanceBy (body.length + 2)
      have hStar := hClose.column_advance (by decide) (by decide)
      have hSlash :=
        hClose.advance.column_advance (by decide) (by decide)
      have hLength :
          ('/' :: '*' :: body ++ ['*', '/']).length =
            body.length + 2 + 2 := by
        simp
      rw [hLength, advanceBy_add]
      change (advanceBy (body.length + 2) c).advance.advance.column =
        1 ↔ _
      rw [hSlash, hStar]
      simp
  | number body hBody =>
      have hFaces' :
          c.Faces (('#' :: body) ++ '\n' :: rest) := by
        simpa using hFaces
      simpa using hFaces'.column_advanceBy_line

open Cursor in
/- The lexer skips a gap as if it were not there. -/
theorem IsGap.skipTrivia
    {fresh : Bool}
    {text rest : List Char}
    {c : Cursor}
    (h : IsGap fresh text)
    (hFaces : c.Faces (text ++ rest))
    (hFresh : fresh = true → c.column = 1) :
    c.skipTrivia = (advanceBy text.length c).skipTrivia := by
  induction h generalizing c with
  | nil fresh => rfl
  | blank fresh d text hBlank hText ih =>
      rw [skipTrivia_of_blank hFaces hBlank]
      apply ih hFaces.advance
      intro hFeed
      apply column_advance_of_newline
      rw [hFaces.current_cons]
      simpa using hFeed
  | comment fresh after comment text hComment hText ih =>
      rw [List.append_assoc] at hFaces
      rw [skipTrivia_of_comment
        (hComment.skipComment? hFaces hFresh),
        ih hFaces.advanceBy_length
          (hComment.column_eq_one_iff hFaces).mpr,
        ← advanceBy_add, List.length_append]

/- The lexer skips trivia as if they were not there. -/
theorem IsTrivia.skipTrivia
    {fresh : Bool}
    {text rest : List Char}
    {c : Cursor}
    (h : IsTrivia fresh text)
    (hFaces : c.Faces (text ++ rest))
    (hFresh : fresh = true → c.column = 1) :
    c.skipTrivia =
      (Cursor.advanceBy text.length c).skipTrivia :=
  h.isGap.skipTrivia hFaces hFresh

namespace Cursor

/-
  The cursor is on a character with which neither trivia nor a
  joined string starts.  The end of the text is such a place.
-/
structure AtToken (c : Cursor) : Prop where
  notBlank : isBlank c.current = false
  notSlash : c.current ≠ '/'
  notSign : c.current ≠ '#'
  notPlus : c.current ≠ '+'

/- Where neither a blank nor a comment starts, nothing is skipped. -/
theorem skipTrivia_eq_self
    {c : Cursor}
    (hBlank : isBlank c.current = false)
    (hSlash : c.current ≠ '/')
    (hSign : c.current ≠ '#') :
    c.skipTrivia = c := by
  rw [skipTrivia_of_no_comment (skipComment?_eq_none hSlash hSign)]
  simp [hBlank]

/- At a token there is nothing to skip. -/
theorem AtToken.skipTrivia
    {c : Cursor}
    (h : c.AtToken) :
    c.skipTrivia = c :=
  skipTrivia_eq_self h.notBlank h.notSlash h.notSign

/- The end of a text is at a token. -/
theorem Faces.atToken_nil
    {c : Cursor}
    (h : c.Faces []) :
    c.AtToken := by
  have hCurrent : c.current = '\x00' := h.1
  constructor <;> rw [hCurrent] <;> decide

/- Trivia in front of a token are all that is skipped. -/
theorem skipTrivia_eq_advanceBy
    {fresh : Bool}
    {text rest : List Char}
    {c : Cursor}
    (hTrivia : IsTrivia fresh text)
    (hFaces : c.Faces (text ++ rest))
    (hFresh : fresh = true → c.column = 1)
    (hToken : (advanceBy text.length c).AtToken) :
    c.skipTrivia = advanceBy text.length c := by
  rw [hTrivia.skipTrivia hFaces hFresh, hToken.skipTrivia]

------------------------------------------------------------
-- What Is Skipped
------------------------------------------------------------

/- As many moves as there are characters lead to the end. -/
theorem Faces.advanceBy_of_length_le
    {c : Cursor}
    {text : List Char}
    {n : Nat}
    (h : c.Faces text)
    (hLength : text.length ≤ n) :
    (Cursor.advanceBy n c).Faces [] := by
  have hEnd := h.advanceBy n
  rwa [List.drop_eq_nil_of_le hLength] at hEnd

/- A line that nothing ends is skipped up to the end. -/
theorem Faces.skipLine_of_not_mem
    {c : Cursor}
    {text : List Char}
    (h : c.Faces text)
    (hText : '\n' ∉ text) :
    c.skipLine.Faces [] := by
  have hAhead : '\n' ∉ c.ahead := by
    cases text with
    | nil => simp [h.ahead_nil]
    | cons d rest => rwa [h.ahead_cons]
  have hTake : c.ahead.takeWhile (· ≠ '\n') = c.ahead := by
    rw [List.takeWhile_eq_self_iff]
    intro d hMem
    simpa using ne_of_mem_of_not_mem hMem hAhead
  have hLength : text.length ≤ c.ahead.length := by
    rw [ahead, List.length_cons, h.2, List.length_tail]
    omega
  have hEnd := h.advanceBy_of_length_le hLength
  have hCurrent :
      (Cursor.advanceBy c.ahead.length c).current ≠ '\n' := by
    rw [hEnd.1]
    decide
  unfold Cursor.skipLine
  simp only [Cursor.skipWhile, hTake, if_neg hCurrent]
  exact hEnd

/- A comment that nothing ends takes all that is left. -/
theorem Faces.skipComment?_of_isOpenComment
    {c : Cursor}
    {text : List Char}
    (h : c.Faces text)
    (hOpen : IsOpenComment (c.column = 1) text) :
    ∃ next, c.skipComment? = some next ∧ next.Faces [] := by
  generalize hFresh : decide (c.column = 1) = fresh at hOpen
  cases hOpen with
  | line _ body hBody =>
      refine ⟨c.skipLine, ?_,
        h.skipLine_of_not_mem (by simp [hBody])⟩
      simp [Cursor.skipComment?, h.current_cons, h.peek_cons]
  | block _ body hBody =>
      have hInside : c.advance.advance.Faces body := h.advance.advance
      refine ⟨Cursor.advanceBy
        (blockCommentLength c.advance.advance.ahead)
        c.advance.advance, ?_, hInside.advanceBy_of_length_le ?_⟩
      · simp [Cursor.skipComment?, h.current_cons, h.peek_cons]
      cases body with
      | nil => exact Nat.zero_le _
      | cons d body =>
          rw [hInside.ahead_cons, blockCommentLength_of_not_infix hBody]
  | number body hBody =>
      refine ⟨c.skipLine, ?_,
        h.skipLine_of_not_mem (by simp [hBody])⟩
      simp [Cursor.skipComment?, h.current_cons,
        of_decide_eq_true hFresh]

theorem Faces.skipTrivia_of_isOpenComment
    {c : Cursor}
    {text : List Char}
    (h : c.Faces text)
    (hOpen : IsOpenComment (c.column = 1) text) :
    c.skipTrivia.Faces [] := by
  rcases h.skipComment?_of_isOpenComment hOpen with
    ⟨next, hSkip, hEnd⟩
  rw [skipTrivia_of_comment hSkip, hEnd.atToken_nil.skipTrivia]
  exact hEnd

/- A comment of one line is ended by a line feed, or is open. -/
theorem isComment_line_or_isOpenComment
    (mark : List Char)
    {fresh : Bool}
    {text : List Char}
    (hEnded :
      ∀ body, '\n' ∉ body →
        IsComment fresh (mark ++ body ++ ['\n']) true)
    (hOpen : '\n' ∉ text → IsOpenComment fresh (mark ++ text)) :
    (∃ comment after rest,
      mark ++ text = comment ++ rest ∧
        IsComment fresh comment after) ∨
      IsOpenComment fresh (mark ++ text) := by
  by_cases hMem : '\n' ∈ text
  · rcases List.eq_append_cons_of_mem hMem with
      ⟨body, rest, rfl, hBody⟩
    exact Or.inl ⟨_, true, rest, by simp, hEnded body hBody⟩
  · exact Or.inr (hOpen hMem)

/- A block comment is ended by its mark, or is open. -/
theorem isComment_block_or_isOpenComment
    (fresh : Bool)
    (text : List Char) :
    (∃ comment after rest,
      '/' :: '*' :: text = comment ++ rest ∧
        IsComment fresh comment after) ∨
      IsOpenComment fresh ('/' :: '*' :: text) := by
  by_cases hInfix : ['*', '/'] <:+: text
  · rcases exists_append_of_infix hInfix with
      ⟨body, rest, rfl, hBody⟩
    exact Or.inl ⟨'/' :: '*' :: body ++ ['*', '/'], false, rest,
      by simp, .block fresh body hBody⟩
  · exact Or.inr (.block fresh text hInfix)

/- A comment that is skipped is one of the text, or is open. -/
theorem Faces.isComment_or_isOpenComment
    {c next : Cursor}
    {text : List Char}
    (h : c.Faces text)
    (hSkip : c.skipComment? = some next) :
    (∃ comment after rest,
      text = comment ++ rest ∧
        IsComment (c.column = 1) comment after) ∨
      IsOpenComment (c.column = 1) text := by
  unfold Cursor.skipComment? at hSkip
  split at hSkip
  · next hMarks =>
      rcases h.eq_cons_cons (by simp [hMarks.1])
        (by simp [hMarks.2]) with ⟨rest, rfl⟩
      rw [hMarks.1, hMarks.2]
      exact isComment_line_or_isOpenComment ['/', '/']
        (.line _) (.line _ rest)
  · split at hSkip
    · next hMark =>
        rcases h.eq_cons (by simp [hMark.1]) with ⟨rest, rfl⟩
        rw [hMark.1, decide_eq_true hMark.2]
        exact isComment_line_or_isOpenComment ['#']
          .number (.number rest)
    · split at hSkip
      · next hMarks =>
          rcases h.eq_cons_cons (by simp [hMarks.1])
            (by simp [hMarks.2]) with ⟨rest, rfl⟩
          rw [hMarks.1, hMarks.2]
          exact isComment_block_or_isOpenComment _ rest
      · cases hSkip

/- A part of a gap is skipped, or all that is left, or nothing. -/
theorem Faces.skipTrivia_step
    {c : Cursor}
    {text : List Char}
    (h : c.Faces text)
    (hColumn : 0 < c.column) :
    c.skipTrivia = c ∨ IsOpenComment (c.column = 1) text ∨
      ∃ part rest,
        part ≠ [] ∧ text = part ++ rest ∧
          c.skipTrivia =
            (Cursor.advanceBy part.length c).skipTrivia ∧
          ∀ gap,
            IsGap ((Cursor.advanceBy part.length c).column = 1) gap →
              IsGap (c.column = 1) (part ++ gap) := by
  by_cases hBlank : isBlank c.current = true
  · have hNull : c.current ≠ '\x00' := by
      intro hEq
      rw [hEq, isBlank_null] at hBlank
      cases hBlank
    rcases h.eq_cons hNull with ⟨rest, rfl⟩
    refine Or.inr (Or.inr ⟨[c.current], rest, by simp, rfl,
      skipTrivia_of_blank h hBlank, fun gap hGap => ?_⟩)
    have hAfter := h.column_advance_eq_one_iff hNull hColumn
    refine .blank _ c.current gap hBlank ?_
    rwa [← decide_eq_decide.mpr hAfter]
  · cases hComment : c.skipComment? with
    | none =>
        rw [skipTrivia_of_no_comment hComment, if_neg hBlank]
        exact Or.inl rfl
    | some next =>
        rcases h.isComment_or_isOpenComment hComment with
          ⟨comment, after, rest, rfl, hIs⟩ | hOpen
        · have hSkip := hIs.skipComment? h of_decide_eq_true
          have hAfter :
              decide ((Cursor.advanceBy comment.length c).column = 1) =
                after := by
            rw [Bool.eq_iff_iff, decide_eq_true_eq]
            exact hIs.column_eq_one_iff h
          refine Or.inr (Or.inr ⟨comment, rest, hIs.ne_nil, rfl,
            skipTrivia_of_comment hSkip, fun gap hGap => ?_⟩)
          rw [hAfter] at hGap
          exact .comment _ after comment gap hIs hGap
        · exact Or.inr (Or.inl hOpen)

/-
  What is skipped is a gap of the text, with a comment behind it
  if that is open at the end.
-/
theorem Faces.exists_isGap
    {c : Cursor}
    {text : List Char}
    (h : c.Faces text)
    (hColumn : 0 < c.column) :
    ∃ gap rest,
      text = gap ++ rest ∧ IsGap (c.column = 1) gap ∧
        (c.skipTrivia = Cursor.advanceBy gap.length c ∨
          IsOpenComment
              ((Cursor.advanceBy gap.length c).column = 1) rest ∧
            c.skipTrivia.Faces []) := by
  induction hLength : text.length using Nat.strong_induction_on
    generalizing c text with
  | _ n ih =>
  rcases h.skipTrivia_step hColumn with
    hSame | hOpen | ⟨part, rest, hSome, rfl, hSkip, hPart⟩
  · exact ⟨[], text, rfl, .nil _, Or.inl hSame⟩
  · exact ⟨[], text, rfl, .nil _,
      Or.inr ⟨hOpen, h.skipTrivia_of_isOpenComment hOpen⟩⟩
  · have hLt : rest.length < n := by
      have hPos := List.length_pos_iff.mpr hSome
      rw [← hLength, List.length_append]
      omega
    rcases ih rest.length hLt h.advanceBy_length
      (column_advanceBy_pos part.length hColumn) rfl with
      ⟨gap, more, rfl, hGap, hMore⟩
    refine ⟨part ++ gap, more, by simp, hPart gap hGap, ?_⟩
    rwa [hSkip, List.length_append, advanceBy_add]

end Cursor

end DotLang
