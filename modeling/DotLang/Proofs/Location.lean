import DotLang.Location
import Mathlib.Data.List.Basic
import Mathlib.Data.List.Infix
import Mathlib.Data.List.TakeWhile

/-
  This file relates places in a text to its lines, and says when
  the excerpt at a place shows the line and the column of it.

  The place behind a text has the offset of the last character.
  Its excerpt points at that character, which stands in another
  column or on another line.

  Key definitions include:
    * `lastLine`
    * `Location.ofIndex`
    * `Location.behind`
    * `Location.IsShown`

  Key theorems include:
    * `getElem?_splitOn_append`
    * `Location.isShown_ofIndex`
    * `Location.isShown_behind_iff`
-/

------------------------------------------------------------
-- Lines
------------------------------------------------------------

namespace DotLang

/- The characters of a text behind its last line feed. -/
def lastLine (text : List Char) : List Char :=
  (text.reverse.takeWhile (· ≠ '\n')).reverse

theorem lastLine_concat
    (text : List Char)
    (c : Char) :
    lastLine (text ++ [c]) =
      if c = '\n' then [] else lastLine text ++ [c] := by
  by_cases hFeed : c = '\n' <;> simp [lastLine, hFeed]

/- What follows the last line feed is the last line. -/
theorem lastLine_append_cons
    {line : List Char}
    (hLine : '\n' ∉ line)
    (front : List Char) :
    lastLine (front ++ '\n' :: line) = line := by
  have hAll : ∀ c ∈ line.reverse, decide (c ≠ '\n') = true := by
    intro c hMem
    refine decide_eq_true ?_
    rintro rfl
    exact hLine (List.mem_reverse.mp hMem)
  rw [lastLine, List.reverse_append, List.reverse_cons,
    List.append_assoc, List.takeWhile_append_of_pos hAll]
  simp

theorem lastLine_of_not_mem
    {text : List Char}
    (h : '\n' ∉ text) :
    lastLine text = text := by
  have hAll : ∀ c ∈ text.reverse, decide (c ≠ '\n') = true := by
    intro c hMem
    refine decide_eq_true ?_
    rintro rfl
    exact h (List.mem_reverse.mp hMem)
  rw [lastLine, List.takeWhile_eq_self_iff.mpr hAll,
    List.reverse_reverse]

theorem lastLine_eq_nil_iff
    {text : List Char} :
    lastLine text = [] ↔ text = [] ∨ ['\n'] <:+ text := by
  rcases List.eq_nil_or_concat text with rfl | ⟨front, c, rfl⟩
  · simp [lastLine]
  · rw [List.concat_eq_append, lastLine_concat]
    by_cases hFeed : c = '\n'
    · simp [hFeed]
    · have hNot : ¬ ['\n'] <:+ front ++ [c] := by
        rintro ⟨other, hOther⟩
        have hLast := (List.append_inj' hOther rfl).2
        exact hFeed (List.cons.inj hLast).1.symm
      simp [hFeed, hNot]

/- There is one line more than there are line feeds. -/
theorem length_splitOn
    (text : List Char) :
    (text.splitOn '\n').length = text.count '\n' + 1 := by
  rw [List.splitOn_eq_splitOnP]
  induction text with
  | nil => rfl
  | cons c text ih =>
      rw [List.splitOnP_cons_eq_if_modifyHead, List.count_cons]
      by_cases hFeed : (c == '\n') = true
      · rw [if_pos hFeed, if_pos hFeed, List.length_cons, ih]
      · rw [if_neg hFeed, if_neg hFeed, List.length_modifyHead, ih,
          Nat.add_zero]

/- The first line ends with the first line feed. -/
theorem getElem?_splitOn_zero
    (text : List Char) :
    (text.splitOn '\n')[0]? =
      some (text.takeWhile (· ≠ '\n')) := by
  have hPlain :
      ∀ {line : List Char},
        '\n' ∉ line →
          (∀ c ∈ line, decide (c ≠ '\n') = true) ∧
            ∀ c ∈ line, (c == '\n') = false := by
    intro line hLine
    constructor <;>
    · intro c hMem
      have hNe : c ≠ '\n' := by
        rintro rfl
        exact hLine hMem
      simpa using hNe
  rw [List.splitOn_eq_splitOnP]
  by_cases hMem : '\n' ∈ text
  · rcases List.eq_append_cons_of_mem hMem with
      ⟨line, rest, rfl, hLine⟩
    rw [List.splitOnP_append_cons _ _ (by decide),
      List.splitOnP_eq_singleton (hPlain hLine).2,
      List.takeWhile_append_of_pos (hPlain hLine).1]
    simp
  · rw [List.splitOnP_eq_singleton (hPlain hMem).2,
      List.takeWhile_eq_self_iff.mpr (hPlain hMem).1]
    rfl

/-
  The line that two parts of a text share is the one with the
  number of the line feeds in the first part.
-/
theorem getElem?_splitOn_append
    (before after : List Char) :
    ((before ++ after).splitOn '\n')[before.count '\n']? =
      some (lastLine before ++ after.takeWhile (· ≠ '\n')) := by
  have hFirst :
      ∀ {line : List Char},
        '\n' ∉ line →
          ((line ++ after).splitOn '\n')[0]? =
            some (line ++ after.takeWhile (· ≠ '\n')) := by
    intro line hLine
    rw [getElem?_splitOn_zero, List.takeWhile_append_of_pos]
    intro c hMem
    refine decide_eq_true ?_
    rintro rfl
    exact hLine hMem
  by_cases hMem : '\n' ∈ before
  · have hReverse := List.mem_reverse.mpr hMem
    rcases List.eq_append_cons_of_mem hReverse with
      ⟨line, front, hBefore, hLine⟩
    rw [List.reverse_eq_iff, List.reverse_append,
      List.reverse_cons, List.append_assoc,
      List.singleton_append] at hBefore
    rw [← List.mem_reverse] at hLine
    rw [hBefore, lastLine_append_cons hLine, ← hFirst hLine]
    have hSplit :
        ((front.reverse ++ '\n' :: line.reverse) ++ after).splitOn
            '\n' =
          front.reverse.splitOn '\n' ++
            (line.reverse ++ after).splitOn '\n' := by
      rw [List.append_assoc, List.cons_append]
      exact List.splitOnP_append_cons _ _ (by decide)
    have hCount :
        (front.reverse ++ '\n' :: line.reverse).count '\n' =
          (front.reverse.splitOn '\n').length := by
      rw [length_splitOn, List.count_append, List.count_cons_self,
        List.count_eq_zero.mpr hLine]
    rw [hSplit, hCount, List.getElem?_append_right (Nat.le_refl _),
      Nat.sub_self]
  · rw [List.count_eq_zero.mpr hMem, lastLine_of_not_mem hMem]
    exact hFirst hMem

------------------------------------------------------------
-- Places
------------------------------------------------------------

namespace Location

/- The place of the character at an index. -/
def ofIndex (text : List Char) (i : Nat) : Location where
  line := (text.take i).count '\n' + 1
  column := (lastLine (text.take i)).length + 1
  offset := i + 1

/-
  The place behind a text.  Its offset is that of the last
  character.  Behind the empty text no column is counted.
-/
def behind (text : List Char) : Location where
  line := text.count '\n' + 1
  column :=
    if text = [] then 0 else (lastLine text).length + 1
  offset := text.length

/-
  The excerpt at the place is the line of the text that has the
  number of the place, with a marker under its column.
-/
def IsShown (l : Location) (text : List Char) : Prop :=
  1 ≤ l.line ∧ 1 ≤ l.column ∧
    ∃ line,
      (text.splitOn '\n')[l.line - 1]? = some line ∧
        excerpt text l.offset =
          String.ofList
            (line ++ '\n' ::
              List.replicate (l.column - 1) ' ' ++ ['^'])

/- Behind a line feed there is one more line. -/
theorem count_take_succ
    {text : List Char}
    {i : Nat}
    (h : i < text.length) :
    (text.take (i + 1)).count '\n' =
      if text[i] = '\n' then
        (text.take i).count '\n' + 1
      else
        (text.take i).count '\n' := by
  rw [← List.take_append_getElem h, List.count_append]
  by_cases hFeed : text[i] = '\n' <;> simp [hFeed]

theorem lastLine_take_succ
    {text : List Char}
    {i : Nat}
    (h : i < text.length) :
    lastLine (text.take (i + 1)) =
      if text[i] = '\n' then
        []
      else
        lastLine (text.take i) ++ [text[i]] := by
  rw [← List.take_append_getElem h, lastLine_concat]

/- No character stands behind its text. -/
theorem ofIndex_ne_behind
    {text : List Char}
    {i : Nat}
    (h : i < text.length) :
    ofIndex text i ≠ behind text := by
  intro hEq
  have hSome : text ≠ [] := List.ne_nil_of_length_pos (by omega)
  have hLine := congrArg Location.line hEq
  have hColumn := congrArg Location.column hEq
  have hOffset : i + 1 = text.length := congrArg Location.offset hEq
  have hWhole : text.take (i + 1) = text := by simp [hOffset]
  -- The last character ends its line or is one more column of it.
  have hCount := count_take_succ h
  have hLast := lastLine_take_succ h
  rw [hWhole] at hCount hLast
  simp only [ofIndex, behind, if_neg hSome] at hLine hColumn
  by_cases hFeed : text[i] = '\n'
  · rw [if_pos hFeed] at hCount
    omega
  · rw [if_neg hFeed] at hLast
    have hLength := congrArg List.length hLast
    rw [List.length_append, List.length_singleton] at hLength
    omega

------------------------------------------------------------
-- Excerpts
------------------------------------------------------------

/- The excerpt of a character is its line and its column. -/
theorem excerpt_ofIndex
    (text : List Char)
    {i : Nat}
    (h : i < text.length) :
    excerpt text (i + 1) =
      String.ofList
        ((lastLine (text.take i) ++
            (text.drop i).takeWhile (· ≠ '\n')) ++ '\n' ::
          List.replicate (lastLine (text.take i)).length ' ' ++
            ['^']) := by
  have hIndex : min (i + 1) text.length - 1 = i := by omega
  rw [excerpt, hIndex]
  rfl

theorem isShown_ofIndex
    {text : List Char}
    {i : Nat}
    (h : i < text.length) :
    (ofIndex text i).IsShown text := by
  have hLine := getElem?_splitOn_append (text.take i) (text.drop i)
  rw [List.take_append_drop] at hLine
  exact ⟨Nat.le_add_left _ _, Nat.le_add_left _ _, _, hLine,
    excerpt_ofIndex text h⟩

/- The last line feed of a text ends an empty line. -/
theorem endsEmptyLine_concat_iff
    {front : List Char}
    {c : Char} :
    (front ++ [c] = ['\n'] ∨ ['\n', '\n'] <:+ front ++ [c]) ↔
      c = '\n' ∧ lastLine front = [] := by
  have hPair : ['\n', '\n'] = ['\n'] ++ ['\n'] := rfl
  rw [lastLine_eq_nil_iff]
  constructor
  · rintro (hAll | hPart)
    · have hAll : front ++ [c] = [] ++ ['\n'] := hAll
      rcases List.append_inj' hAll rfl with ⟨rfl, hLast⟩
      exact ⟨(List.cons.inj hLast).1, Or.inl rfl⟩
    · have hLast : '\n' = c := by simpa using hPart.getLast (by simp)
      subst hLast
      rw [hPair, List.suffix_append_self_iff] at hPart
      exact ⟨rfl, Or.inr hPart⟩
  · rintro ⟨rfl, rfl | hFront⟩
    · exact Or.inl rfl
    · rw [hPair, List.suffix_append_self_iff]
      exact Or.inr hFront

/-
  The excerpt at the place behind a text shows the last
  character, which is right by chance after an empty line only.
-/
theorem isShown_behind_iff
    (text : List Char) :
    (behind text).IsShown text ↔
      text = ['\n'] ∨ ['\n', '\n'] <:+ text := by
  rcases List.eq_nil_or_concat text with rfl | ⟨front, c, rfl⟩
  · simp [IsShown, behind]
  · rw [List.concat_eq_append, endsEmptyLine_concat_iff]
    have hSome : front ++ [c] ≠ [] := by simp
    have hLength : (front ++ [c]).length = front.length + 1 := by
      simp
    have hLine := getElem?_splitOn_append (front ++ [c]) []
    have hExcerpt :=
      excerpt_ofIndex (front ++ [c]) (i := front.length) (by simp)
    simp only [List.append_nil, List.takeWhile_nil] at hLine
    simp only [List.take_left, List.drop_left] at hExcerpt
    simp only [IsShown, behind, if_neg hSome, hLength,
      Nat.add_sub_cancel, hLine, hExcerpt, Option.some.injEq,
      exists_eq_left', String.ofList_inj, Nat.le_add_left,
      true_and, lastLine_concat]
    -- The texts of the excerpts differ in length already.
    by_cases hFeed : c = '\n'
    · subst hFeed
      constructor
      · intro hEq
        have hLengths := congrArg List.length hEq
        simp at hLengths
        exact ⟨rfl, List.length_eq_zero_iff.mp (by omega)⟩
      · rintro ⟨_, hNil⟩
        simp [hNil]
    · constructor
      · intro hEq
        have hLengths := congrArg List.length hEq
        simp [hFeed] at hLengths
      · rintro ⟨rfl, _⟩
        exact absurd rfl hFeed

end Location

end DotLang
