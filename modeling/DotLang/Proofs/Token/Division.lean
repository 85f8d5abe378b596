import DotLang.Proofs.Token.Calls

/-
  This file proves that the lexer divides a text among its
  tokens and what it skips between them, with one exception: a
  null character that ends the text is taken for the end of it.

  A cursor in a text is told by the number of characters that it
  has left behind.

  Key definitions include:
    * `Cursor.place`
    * `IsSkipped`
    * `IsCall`
    * `Lexes`
    * `DropsNothing`
    * `HidesNull`

  Key theorems include:
    * `Cursor.advanceBy_place`
    * `Cursor.exists_skipTrivia_place`
    * `Cursor.exists_readToken_place`
    * `exists_lexes`
    * `Lexes.unique`
    * `dropsNothing_iff`
-/

------------------------------------------------------------
-- Places of Cursors
------------------------------------------------------------

namespace DotLang

namespace Cursor

variable {text : List Char} {k m : Nat}

/-
  The number of characters that a cursor can leave behind.  It
  stays on a null character that ends the text.
-/
def reach (text : List Char) : Nat :=
  if text.getLast? = some '\x00' then
    text.length - 1
  else
    text.length

/- The cursor that has left some characters of a text behind. -/
def place (text : List Char) (k : Nat) : Cursor :=
  if k < text.length then ofIndex text k else behind text

theorem reach_le
    (text : List Char) :
    reach text ≤ text.length := by
  unfold reach
  split <;> omega

theorem length_pos_of_getLast?
    {c : Char}
    (h : text.getLast? = some c) :
    0 < text.length :=
  List.length_pos_iff.mpr fun hNil => by simp [hNil] at h

theorem reach_of_null
    (h : text.getLast? = some '\x00') :
    reach text + 1 = text.length := by
  have hPos := length_pos_of_getLast? h
  rw [reach, if_pos h]
  omega

theorem reach_of_not_null
    (h : text.getLast? ≠ some '\x00') :
    reach text = text.length :=
  if_neg h

theorem place_of_lt
    (h : k < text.length) :
    place text k = ofIndex text k :=
  if_pos h

@[simp] theorem place_length
    (text : List Char) :
    place text text.length = behind text :=
  if_neg (Nat.lt_irrefl _)

theorem start_eq_place
    (text : List Char) :
    start text = place text 0 := by
  cases text <;> rfl

theorem advance_place
    (h : k ≤ reach text) :
    (place text k).advance = place text (min (k + 1) (reach text)) := by
  have hReach := reach_le text
  by_cases hNext : k + 1 < text.length
  · have hLe : k + 1 ≤ reach text := by
      unfold reach
      split <;> omega
    rw [place_of_lt (by omega), advance_ofIndex hNext,
      Nat.min_eq_left hLe, place_of_lt hNext]
  · by_cases hNull : text.getLast? = some '\x00'
    · have hEnd := reach_of_null hNull
      rw [place_of_lt (by omega),
        advance_ofIndex_null (by omega) hNull,
        Nat.min_eq_right (by omega), ← place_of_lt (by omega)]
      congr 1
      omega
    · have hEnd := reach_of_not_null hNull
      rw [hEnd, Nat.min_eq_right (by omega), place_length]
      by_cases hLast : k < text.length
      · rw [place_of_lt hLast,
          advance_ofIndex_last (by omega) hNull]
      · rw [show k = text.length by omega, place_length,
          advance_behind]

/- Moves of a cursor add to what it has left behind. -/
theorem advanceBy_place
    (n : Nat)
    (h : k ≤ reach text) :
    advanceBy n (place text k) =
      place text (min (k + n) (reach text)) := by
  induction n generalizing k with
  | zero => rw [advanceBy, Nat.add_zero, Nat.min_eq_left h]
  | succ n ih =>
      rw [advanceBy, advance_place h, ih (Nat.min_le_right _ _)]
      congr 1
      omega

theorem Reaches.exists_place
    {c : Cursor}
    (h : (place text k).Reaches c)
    (hk : k ≤ reach text) :
    ∃ m, k ≤ m ∧ m ≤ reach text ∧ c = place text m := by
  rcases h with ⟨n, rfl⟩
  exact ⟨min (k + n) (reach text), by omega, by omega,
    advanceBy_place n hk⟩

/- A cursor faces what it has not left behind. -/
theorem faces_place
    (h : k ≤ text.length) :
    (place text k).Faces (text.drop k) := by
  by_cases hLt : k < text.length
  · rw [place_of_lt hLt]
    refine ⟨?_, ?_⟩
    · simp [ofIndex, List.headD_eq_head?_getD, hLt]
    · simp [ofIndex]
  · rw [show k = text.length by omega, place_length,
      List.drop_length]
    exact ⟨rfl, rfl⟩

theorem faces_place_append
    (before rest : List Char) :
    (place (before ++ rest) before.length).Faces rest := by
  have h :
      (place (before ++ rest) before.length).Faces
        ((before ++ rest).drop before.length) :=
    faces_place (by simp)
  rwa [List.drop_left] at h

theorem atEnd_place_iff
    (h : k ≤ reach text) :
    (place text k).atEnd = true ↔ k = reach text := by
  have hReach := reach_le text
  by_cases hLt : k < text.length
  · have hEnd :
        (place text k).atEnd = true ↔
          text[k] = '\x00' ∧ k + 1 = text.length := by
      have hDrop : text.drop (k + 1) = [] ↔ k + 1 = text.length := by
        rw [List.drop_eq_nil_iff]
        omega
      simp [place_of_lt hLt, atEnd, ofIndex, hLt, hDrop]
    rw [hEnd]
    constructor
    · rintro ⟨hNull, hLast⟩
      have hText : text.getLast? = some '\x00' := by
        rw [List.getLast?_eq_getElem?, ← hLast, Nat.add_sub_cancel,
          List.getElem?_eq_getElem hLt, hNull]
      have hNumber := reach_of_null hText
      omega
    · intro hEq
      have hText : text.getLast? = some '\x00' := by
        by_contra hNot
        have hNumber := reach_of_not_null hNot
        omega
      have hNumber := reach_of_null hText
      refine ⟨?_, by omega⟩
      rw [List.getLast?_eq_getElem?,
        show text.length - 1 = k by omega,
        List.getElem?_eq_getElem hLt] at hText
      exact Option.some.inj hText
  · have hEq : k = text.length := by omega
    rw [hEq, place_length]
    exact iff_of_true rfl (by omega)

theorem atEnd_place_reach
    (text : List Char) :
    (place text (reach text)).atEnd = true :=
  (atEnd_place_iff (Nat.le_refl _)).mpr rfl

theorem location_place_of_lt
    (h : k < text.length) :
    (place text k).location = Location.ofIndex text k := by
  rw [place_of_lt h]
  rfl

/- Cursors that have left more behind are other ones. -/
theorem place_injective
    (hk : k ≤ text.length)
    (hm : m ≤ text.length)
    (h : place text k = place text m) :
    k = m := by
  have hLocation := congrArg location h
  rcases Nat.lt_or_eq_of_le hk with hLt | rfl
  · rcases Nat.lt_or_eq_of_le hm with hLt' | rfl
    · rw [location_place_of_lt hLt, location_place_of_lt hLt']
        at hLocation
      exact Nat.succ.inj (congrArg Location.offset hLocation)
    · rw [location_place_of_lt hLt, place_length] at hLocation
      exact absurd hLocation (Location.ofIndex_ne_behind hLt)
  · rcases Nat.lt_or_eq_of_le hm with hLt' | rfl
    · rw [location_place_of_lt hLt', place_length] at hLocation
      exact absurd hLocation.symm (Location.ofIndex_ne_behind hLt')
    · rfl

end Cursor

------------------------------------------------------------
-- What Is Skipped
------------------------------------------------------------

/- What comes behind the text stands in the first column. -/
def isFresh (before : List Char) : Bool :=
  (lastLine before).isEmpty

/-
  What may stand between tokens behind some characters: blanks
  and comments, the last of which may be open.
-/
def IsSkipped (before text : List Char) : Prop :=
  ∃ gap comment,
    text = gap ++ comment ∧
      IsGap (isFresh before) gap ∧
      (comment = [] ∨ IsOpenComment (isFresh (before ++ gap)) comment)

theorem IsGap.isSkipped
    {before gap : List Char}
    (h : IsGap (isFresh before) gap) :
    IsSkipped before gap :=
  ⟨gap, [], (List.append_nil gap).symm, h, Or.inl rfl⟩

theorem IsComment.getLast?_ne_null
    {fresh after : Bool}
    {text : List Char}
    (h : IsComment fresh text after) :
    text.getLast? ≠ some '\x00' := by
  cases h
  all_goals
    rw [List.getLast?_append_of_ne_nil _ (List.cons_ne_nil _ _)]
    decide

/- No gap ends with a null character. -/
theorem IsGap.getLast?_ne_null
    {fresh : Bool}
    {gap : List Char}
    (h : IsGap fresh gap) :
    gap.getLast? ≠ some '\x00' := by
  induction h with
  | nil fresh => simp
  | blank fresh c rest hBlank hRest ih =>
      cases rest with
      | nil =>
          intro hLast
          rw [show c = '\x00' from Option.some.inj hLast,
            isBlank_null] at hBlank
          cases hBlank
      | cons d rest => rwa [List.getLast?_cons_cons]
  | comment fresh after text rest hText hRest ih =>
      cases rest with
      | nil =>
          rw [List.append_nil]
          exact hText.getLast?_ne_null
      | cons d rest =>
          rwa [List.getLast?_append_of_ne_nil _
            (List.cons_ne_nil d rest)]

/- A character that ends no comment may join an open one. -/
theorem IsOpenComment.concat
    {fresh : Bool}
    {text : List Char}
    (h : IsOpenComment fresh text)
    {c : Char}
    (hFeed : c ≠ '\n')
    (hSlash : c ≠ '/') :
    IsOpenComment fresh (text ++ [c]) := by
  cases h with
  | line fresh body hBody =>
      exact .line fresh (body ++ [c]) (by simp [hBody, hFeed.symm])
  | block fresh body hBody =>
      refine .block fresh (body ++ [c]) ?_
      rw [List.infix_concat_iff]
      rintro (hSuffix | hInfix)
      · have hLast := hSuffix.getLast (by simp)
        simp at hLast
        exact hSlash hLast.symm
      · exact hBody hInfix
  | number body hBody =>
      exact .number (body ++ [c]) (by simp [hBody, hFeed.symm])

namespace Cursor

theorem column_place
    {before rest : List Char}
    (h : before ++ rest ≠ []) :
    (place (before ++ rest) before.length).column =
      (lastLine before).length + 1 := by
  cases rest with
  | nil =>
      rw [List.append_nil] at h ⊢
      rw [place_length]
      exact if_neg h
  | cons c rest =>
      rw [place_of_lt (by simp)]
      simp [ofIndex, Location.ofIndex]

theorem column_place_eq_one_iff
    {before rest : List Char}
    (h : before ++ rest ≠ []) :
    decide ((place (before ++ rest) before.length).column = 1) =
      isFresh before := by
  rw [column_place h, isFresh, Bool.eq_iff_iff, decide_eq_true_eq,
    List.isEmpty_iff, ← List.length_eq_zero_iff]
  omega

/- A gap leads to the place behind it. -/
theorem advanceBy_place_append
    {before part rest : List Char}
    (h :
      (before ++ part).length ≤ reach (before ++ part ++ rest)) :
    advanceBy part.length
        (place (before ++ part ++ rest) before.length) =
      place (before ++ part ++ rest) (before ++ part).length := by
  rw [List.length_append] at h ⊢
  rw [advanceBy_place _ (by omega), Nat.min_eq_left h]

/- A cursor can leave a gap behind. -/
theorem length_le_reach_of_isGap
    {fresh : Bool}
    {before gap rest : List Char}
    (hGap : IsGap fresh gap)
    (hBefore : before.length ≤ reach (before ++ gap ++ rest)) :
    (before ++ gap).length ≤ reach (before ++ gap ++ rest) := by
  by_cases hNull :
      (before ++ gap ++ rest).getLast? = some '\x00'
  · have hReach := reach_of_null hNull
    have hLength :
        (before ++ gap ++ rest).length =
          (before ++ gap).length + rest.length :=
      List.length_append
    cases rest with
    | nil =>
        cases gap with
        | nil => simpa using hBefore
        | cons c gap =>
            rw [List.append_nil,
              List.getLast?_append_of_ne_nil _ (List.cons_ne_nil c gap)]
              at hNull
            exact absurd hNull hGap.getLast?_ne_null
    | cons c rest =>
        rw [List.length_cons] at hLength
        omega
  · rw [reach_of_not_null hNull]
    simp

/-
  What the lexer skips behind some characters is a gap, unless
  a comment is open: that takes all that is left.
-/
theorem exists_skipTrivia_place
    {before rest : List Char}
    (h : before.length ≤ reach (before ++ rest)) :
    ∃ gap more,
      rest = gap ++ more ∧
        IsGap (isFresh before) gap ∧
        (before ++ gap).length ≤ reach (before ++ rest) ∧
        ((place (before ++ rest) before.length).skipTrivia =
            place (before ++ rest) (before ++ gap).length ∨
          IsOpenComment (isFresh (before ++ gap)) more ∧
            (place (before ++ rest) before.length).skipTrivia =
              place (before ++ rest) (reach (before ++ rest))) := by
  by_cases hNil : before ++ rest = []
  · rcases List.append_eq_nil_iff.mp hNil with ⟨rfl, rfl⟩
    exact ⟨[], [], rfl, .nil _, Nat.le_refl _,
      Or.inl (skipTrivia_of_atEnd rfl)⟩
  have hFaces := faces_place_append before rest
  have hColumn := column_place hNil
  rcases hFaces.exists_isGap (by omega) with
    ⟨gap, more, rfl, hGap, hSkip⟩
  rw [column_place_eq_one_iff hNil] at hGap
  rw [← List.append_assoc] at hNil h hSkip ⊢
  have hReach := length_le_reach_of_isGap hGap h
  rw [advanceBy_place_append hReach] at hSkip
  refine ⟨gap, more, rfl, hGap, hReach, ?_⟩
  rcases hSkip with hSkip | ⟨hOpen, hEnd⟩
  · exact Or.inl hSkip
  · rw [column_place_eq_one_iff hNil] at hOpen
    rcases (reaches_skipTrivia _).exists_place h with
      ⟨m, -, hm, hPlace⟩
    rw [hPlace] at hEnd
    rw [(atEnd_place_iff hm).mp hEnd.atEnd_nil] at hPlace
    exact Or.inr ⟨hOpen, hPlace⟩

/- Between tokens a null character is not skipped. -/
theorem not_isSkipped_null
    {before gap : List Char}
    (hGap : IsGap (isFresh before) gap) :
    ¬ IsSkipped before (gap ++ ['\x00']) := by
  rintro ⟨other, comment, hText, hOther, rfl | hOpen⟩
  · rw [List.append_nil] at hText
    rw [← hText] at hOther
    exact hOther.getLast?_ne_null (by simp)
  -- One more character tells the null character from the end.
  let text : List Char := gap ++ ['\x00', 'x']
  let c : Cursor := place (before ++ text) before.length
  have hSome : before ++ text ≠ [] := by simp [text]
  have hColumn := column_place_eq_one_iff hSome
  have hFaces : c.Faces text := faces_place_append before text
  have hBehind :
      (advanceBy gap.length c).Faces ['\x00', 'x'] :=
    hFaces.advanceBy_length
  have hSkip : c.skipTrivia = advanceBy gap.length c := by
    rw [hGap.skipTrivia hFaces fun hFresh =>
      of_decide_eq_true (hColumn.trans hFresh)]
    apply skipTrivia_eq_self <;> rw [hBehind.current_cons] <;> decide
  have hText' : text = other ++ (comment ++ ['x']) := by
    rw [← List.append_assoc, ← hText, List.append_assoc]
    rfl
  have hFaces' : c.Faces (other ++ (comment ++ ['x'])) := by
    rwa [← hText']
  have hReach :
      (before ++ other).length ≤
        reach (before ++ other ++ (comment ++ ['x'])) := by
    apply length_le_reach_of_isGap hOther
    have hLast :
        (before ++ other ++ (comment ++ ['x'])).getLast? ≠
          some '\x00' := by
      simp
    rw [reach_of_not_null hLast]
    simp
  have hNext :
      advanceBy other.length c =
        place (before ++ other ++ (comment ++ ['x']))
          (before ++ other).length := by
    rw [← advanceBy_place_append hReach, List.append_assoc,
      ← hText']
  have hEnd : c.skipTrivia.Faces [] := by
    rw [hOther.skipTrivia hFaces' fun hFresh =>
      of_decide_eq_true (hColumn.trans hFresh), hNext]
    apply (faces_place_append _ _).skipTrivia_of_isOpenComment
    rw [column_place_eq_one_iff (by simp)]
    exact hOpen.concat (by decide) (by decide)
  rw [hSkip] at hEnd
  have hRest := hBehind.2.symm.trans hEnd.2
  cases hRest

end Cursor

------------------------------------------------------------
-- What Is Taken
------------------------------------------------------------

namespace Cursor

/- A null character that is not the end is a stray one. -/
theorem readToken_of_null
    {c : Cursor}
    (hNull : c.current = '\x00')
    (hEnd : c.atEnd = false) :
    c.readToken =
      (.malformed (.strayCharacter '\x00'), c.advance) := by
  have hStart : isNameStart '\x00' = false := by decide
  unfold readToken
  rw [hNull]
  simp [Symbol.ofChar?, hEnd, hStart]

/- A null character that a token starts with is all of it. -/
theorem readToken_place_null
    {before rest : List Char}
    (hReach : before.length ≤ reach (before ++ '\x00' :: rest))
    (hToken :
      (place (before ++ '\x00' :: rest) before.length).readToken.1 ≠
        .endOfFile) :
    before.length < reach (before ++ '\x00' :: rest) ∧
      (place (before ++ '\x00' :: rest) before.length).readToken =
        (.malformed (.strayCharacter '\x00'),
          place (before ++ '\x00' :: rest) (before.length + 1)) := by
  have hNull :=
    (faces_place_append before ('\x00' :: rest)).current_cons
  have hAtEnd :
      (place (before ++ '\x00' :: rest) before.length).atEnd ≠ true :=
    fun hEnd => hToken (readToken_eq_endOfFile_iff.mpr hEnd)
  have hLt : before.length < reach (before ++ '\x00' :: rest) :=
    Nat.lt_of_le_of_ne hReach fun hEq =>
      hAtEnd ((atEnd_place_iff hReach).mpr hEq)
  refine ⟨hLt, ?_⟩
  rw [readToken_of_null hNull (Bool.eq_false_iff.mpr hAtEnd),
    advance_place hReach, Nat.min_eq_left hLt]

/-
  A token takes characters, and leads to the place behind them.
  A null character among them is never the first of several.
-/
theorem exists_readToken_place
    {before rest : List Char}
    (hReach : before.length ≤ reach (before ++ rest))
    (hToken :
      (place (before ++ rest) before.length).readToken.1 ≠
        .endOfFile) :
    ∃ taken more token,
      rest = taken ++ more ∧
        taken ≠ [] ∧
        (before ++ taken).length ≤ reach (before ++ rest) ∧
        (place (before ++ rest) before.length).readToken =
          (token, place (before ++ rest) (before ++ taken).length) ∧
        (taken.head? = some '\x00' →
          taken = ['\x00'] ∧
            token = .malformed (.strayCharacter '\x00')) := by
  rcases (reaches_readToken _).exists_place hReach with
    ⟨m, hLe, hm, hPlace⟩
  have hLt := remaining_readToken_lt hToken
  have hNe : before.length ≠ m := by
    rintro rfl
    rw [hPlace] at hLt
    exact Nat.lt_irrefl _ hLt
  have hBound := reach_le (before ++ rest)
  have hLength :
      (before ++ rest).length = before.length + rest.length :=
    List.length_append
  have hTaken :
      (before ++ rest.take (m - before.length)).length = m := by
    rw [List.length_append, List.length_take]
    omega
  refine ⟨rest.take (m - before.length),
    rest.drop (m - before.length), _,
    (List.take_append_drop _ _).symm, ?_, by rwa [hTaken],
    by rw [hTaken, ← hPlace], ?_⟩
  · intro hNil
    rw [hNil, List.append_nil] at hTaken
    exact hNe hTaken
  · rw [List.head?_take, if_neg (by omega)]
    intro hHead
    rcases List.head?_eq_some_iff.mp hHead with ⟨more, rfl⟩
    rcases readToken_place_null hReach hToken with ⟨hNext, hRead⟩
    rw [hRead] at hPlace ⊢
    have hOne : before.length + 1 = m :=
      place_injective (by omega) (by omega) hPlace
    rw [← hOne, Nat.add_sub_cancel_left]
    exact ⟨rfl, rfl⟩

end Cursor

------------------------------------------------------------
-- Calls
------------------------------------------------------------

open Cursor

/-
  A call of the lexer: the characters that it skips, those that
  it takes, and the token that it makes of them.
-/
structure Call where
  skipped : List Char
  taken : List Char
  token : Token

/- The characters that a call moves over. -/
def Call.text (call : Call) : List Char :=
  call.skipped ++ call.taken

/-
  The call behind some characters of a text.  It skips a gap, and
  takes at least one character as a token.  A null character is
  taken alone, as a stray one, where a token should start.
-/
structure IsCall (text before : List Char) (call : Call) : Prop where
  skips :
    (place text before.length).skipTrivia =
      place text (before ++ call.skipped).length
  takes :
    (place text (before ++ call.skipped).length).readToken =
      (call.token, place text (before ++ call.text).length)
  reaches : (before ++ call.text).length ≤ reach text
  token_ne : call.token ≠ .endOfFile
  isGap : IsGap (isFresh before) call.skipped
  taken_ne_nil : call.taken ≠ []
  null :
    call.taken.head? = some '\x00' →
      call.taken = ['\x00'] ∧
        call.token = .malformed (.strayCharacter '\x00')

theorem IsCall.nextToken_eq
    {text before : List Char}
    {call : Call}
    (h : IsCall text before call) :
    (place text before.length).nextToken =
      (call.token, place text (before ++ call.text).length) := by
  rw [nextToken, h.skips, h.takes]

/- Two calls at the same place are the same. -/
theorem IsCall.unique
    {text before : List Char}
    {call call' : Call}
    (h : IsCall text before call)
    (h' : IsCall text before call')
    (hText : before ++ call.text <+: text)
    (hText' : before ++ call'.text <+: text) :
    call = call' := by
  rcases call with ⟨skipped, taken, token⟩
  rcases call' with ⟨skipped', taken', token'⟩
  have hLength := hText.length_le
  have hLength' := hText'.length_le
  simp only [Call.text, List.length_append] at hLength hLength'
  have hSkipped : skipped.length = skipped'.length := by
    have hPlace := place_injective (by simp; omega) (by simp; omega)
      (h.skips.symm.trans h'.skips)
    simpa using hPlace
  have hBoth : skipped ++ taken = skipped' ++ taken' := by
    have hPlace :=
      place_injective hText.length_le hText'.length_le
        (congrArg Prod.snd (h.nextToken_eq.symm.trans h'.nextToken_eq))
    have hPrefix :=
      List.prefix_of_prefix_length_le hText hText' hPlace.le
    exact List.append_cancel_left (hPrefix.eq_of_length hPlace)
  rcases List.append_inj hBoth hSkipped with ⟨rfl, rfl⟩
  have hToken : token = token' :=
    congrArg Prod.fst (h.nextToken_eq.symm.trans h'.nextToken_eq)
  rw [hToken]

/-
  The calls behind some characters of a text, up to the one that
  answers the end of the file, and what is left for that one.
-/
inductive Lexes (text : List Char) :
    List Char → List Call → List Char → Prop where
| finish
    (before rest : List Char)
    (hText : text = before ++ rest)
    (hEnd : (place text before.length).nextToken.1 = .endOfFile) :
    Lexes text before [] rest
| call
    (before rest : List Char)
    (call : Call)
    (calls : List Call)
    (hCall : IsCall text before call)
    (hRest : Lexes text (before ++ call.text) calls rest) :
    Lexes text before (call :: calls) rest

namespace Lexes

variable {text before rest : List Char} {calls : List Call}

/- The calls and the rest make up what is left of the text. -/
theorem text_eq
    (h : Lexes text before calls rest) :
    text = before ++ calls.flatMap Call.text ++ rest := by
  induction h with
  | finish before rest hText hEnd => simpa using hText
  | call before rest call calls hCall hRest ih =>
      rw [ih, List.flatMap_cons]
      simp only [List.append_assoc]

theorem isPrefix_before
    (h : Lexes text before calls rest) :
    before <+: text :=
  ⟨calls.flatMap Call.text ++ rest, by
    rw [← List.append_assoc, ← h.text_eq]⟩

/- The tokens of the calls are those of the text. -/
theorem tokens_eq
    (h : Lexes text before calls rest) :
    (place text before.length).tokens.tokens.map Located.token =
      calls.map Call.token := by
  induction h with
  | finish before rest hText hEnd =>
      rw [tokens_apply, if_pos hEnd]
      rfl
  | call before rest call calls hCall hRest ih =>
      have hToken : (place text before.length).nextToken.1 ≠
          .endOfFile := by
        rw [hCall.nextToken_eq]
        exact hCall.token_ne
      rw [tokens_apply, if_neg hToken, List.map_cons, List.map_cons,
        hCall.nextToken_eq, ih]

/- The text alone decides what the calls are. -/
theorem unique
    {rest' : List Char}
    {calls' : List Call}
    (h : Lexes text before calls rest)
    (h' : Lexes text before calls' rest') :
    calls = calls' ∧ rest = rest' := by
  induction h generalizing calls' rest' with
  | finish before rest hText hEnd =>
      cases h' with
      | finish _ _ hText' _ =>
          exact ⟨rfl,
            List.append_cancel_left (hText.symm.trans hText')⟩
      | call _ _ call _ hCall _ =>
          rw [hCall.nextToken_eq] at hEnd
          exact absurd hEnd hCall.token_ne
  | call before rest call calls hCall hRest ih =>
      cases h' with
      | finish _ _ _ hEnd =>
          rw [hCall.nextToken_eq] at hEnd
          exact absurd hEnd hCall.token_ne
      | call _ _ call' calls' hCall' hRest' =>
          have hEq : call = call' :=
            hCall.unique hCall' hRest.isPrefix_before
              hRest'.isPrefix_before
          subst hEq
          rcases ih hRest' with ⟨rfl, rfl⟩
          exact ⟨rfl, rfl⟩

------------------------------------------------------------
-- Dividing a Text
------------------------------------------------------------

/-
  Behind the last token there is what may be skipped, or a gap
  and a null character that ends the text.
-/
theorem isSkipped_or_null_of_endOfFile
    {before rest : List Char}
    (hReach : before.length ≤ reach (before ++ rest))
    (hEnd :
      (place (before ++ rest) before.length).nextToken.1 =
        .endOfFile) :
    IsSkipped before rest ∨
      ∃ gap,
        rest = gap ++ ['\x00'] ∧ IsGap (isFresh before) gap := by
  rcases exists_skipTrivia_place hReach with
    ⟨gap, more, rfl, hGap, hBehind, hSkip | ⟨hOpen, -⟩⟩
  · have hAtEnd :
        (place (before ++ (gap ++ more))
          (before ++ gap).length).atEnd = true := by
      rw [← hSkip]
      exact readToken_eq_endOfFile_iff.mp hEnd
    have hLength := (atEnd_place_iff hBehind).mp hAtEnd
    by_cases hNull :
        (before ++ (gap ++ more)).getLast? = some '\x00'
    · have hAll := reach_of_null hNull
      simp only [List.length_append] at hAll hLength
      rcases List.length_eq_one_iff.mp
        (show more.length = 1 by omega) with ⟨c, rfl⟩
      have hLast : c = '\x00' := by simpa using hNull
      exact Or.inr ⟨gap, by rw [hLast], hGap⟩
    · have hAll := reach_of_not_null hNull
      simp only [List.length_append] at hAll hLength
      rw [List.length_eq_zero_iff.mp (show more.length = 0 by omega),
        List.append_nil]
      exact Or.inl hGap.isSkipped
  · exact Or.inl ⟨gap, more, rfl, hGap, Or.inr hOpen⟩

theorem isSkipped_or_null
    (h : Lexes text before calls rest)
    (hReach : before.length ≤ reach text) :
    IsSkipped (before ++ calls.flatMap Call.text) rest ∨
      ∃ gap,
        rest = gap ++ ['\x00'] ∧
          IsGap (isFresh (before ++ calls.flatMap Call.text)) gap := by
  induction h with
  | finish before rest hText hEnd =>
      subst hText
      rw [List.flatMap_nil, List.append_nil]
      exact isSkipped_or_null_of_endOfFile hReach hEnd
  | call before rest call calls hCall hRest ih =>
      rw [List.flatMap_cons, ← List.append_assoc]
      exact ih hCall.reaches

end Lexes

/- Where a token starts, there is a call that takes it. -/
theorem exists_isCall
    {before rest : List Char}
    (hReach : before.length ≤ reach (before ++ rest))
    (hToken :
      (place (before ++ rest) before.length).nextToken.1 ≠
        .endOfFile) :
    ∃ call more,
      rest = call.text ++ more ∧
        IsCall (before ++ rest) before call := by
  rcases exists_skipTrivia_place hReach with
    ⟨gap, more, rfl, hGap, hBehind, hSkip | ⟨-, hEnd⟩⟩
  · have hFirst := hToken
    rw [nextToken, hSkip] at hFirst
    rw [← List.append_assoc] at hBehind hFirst
    rcases exists_readToken_place hBehind hFirst with
      ⟨taken, more, token, rfl, hSome, hTaken, hRead, hNull⟩
    rw [hRead] at hFirst
    simp only [List.append_assoc] at hTaken hRead
    exact ⟨⟨gap, taken, token⟩, more,
      by rw [Call.text, List.append_assoc],
      ⟨hSkip, hRead, hTaken, hFirst, hGap, hSome, hNull⟩⟩
  · refine absurd ?_ hToken
    rw [nextToken, hEnd, readToken_eq_endOfFile_iff]
    exact atEnd_place_reach _

theorem exists_lexes
    {before rest : List Char}
    (hReach : before.length ≤ reach (before ++ rest)) :
    ∃ calls left, Lexes (before ++ rest) before calls left := by
  induction hLength : rest.length using Nat.strong_induction_on
    generalizing before rest with
  | _ n ih =>
  by_cases hEnd :
      (place (before ++ rest) before.length).nextToken.1 = .endOfFile
  · exact ⟨[], rest, .finish before rest rfl hEnd⟩
  · rcases exists_isCall hReach hEnd with
      ⟨call, more, rfl, hCall⟩
    have hSome := List.length_pos_iff.mpr hCall.taken_ne_nil
    have hLess : more.length < n := by
      rw [← hLength, Call.text]
      simp only [List.length_append]
      omega
    rw [← List.append_assoc] at hCall ⊢
    rcases ih more.length hLess hCall.reaches rfl with
      ⟨calls, left, hRest⟩
    exact ⟨call :: calls, left,
      .call before left call calls hCall hRest⟩

------------------------------------------------------------
-- Whole Texts
------------------------------------------------------------

/-
  The lexer drops no character of the text: its calls take all
  that is not skipped between tokens, and what is left when the
  end of the file is answered is skipped as well.
-/
def DropsNothing (text : List Char) : Prop :=
  ∃ calls rest,
    Lexes text [] calls rest ∧
      (TokenStream.ofText text).tokens.map Located.token =
        calls.map Call.token ∧
      IsSkipped (calls.flatMap Call.text) rest

/-
  The text ends with a null character where a token should
  start.
-/
def HidesNull (text : List Char) : Prop :=
  ∃ calls gap,
    Lexes text [] calls (gap ++ ['\x00']) ∧
      IsGap (isFresh (calls.flatMap Call.text)) gap

theorem HidesNull.not_dropsNothing
    {text : List Char}
    (h : HidesNull text) :
    ¬ DropsNothing text := by
  rintro ⟨calls, rest, hLexes, -, hSkipped⟩
  rcases h with ⟨calls', gap, hLexes', hGap⟩
  rcases hLexes.unique hLexes' with ⟨rfl, rfl⟩
  exact not_isSkipped_null hGap hSkipped

/-
  The lexer drops no character, with one exception: a null
  character that ends the text where a token should start is
  taken for the end of the file.
-/
theorem dropsNothing_iff
    (text : List Char) :
    DropsNothing text ↔ ¬ HidesNull text := by
  refine ⟨fun h hHides => hHides.not_dropsNothing h, fun hNot => ?_⟩
  have hAll : ∃ calls rest, Lexes ([] ++ text) [] calls rest :=
    exists_lexes (Nat.zero_le _)
  rcases hAll with ⟨calls, rest, hLexes⟩
  have hTokens := hLexes.tokens_eq
  rw [List.nil_append] at hLexes hTokens
  refine ⟨calls, rest, hLexes, ?_, ?_⟩
  · rw [← hTokens, TokenStream.ofText, start_eq_place]
    rfl
  · rcases hLexes.isSkipped_or_null (Nat.zero_le _) with
      hSkipped | ⟨gap, rfl, hGap⟩
    · exact hSkipped
    · exact absurd ⟨calls, gap, hLexes, hGap⟩ hNot

/- A null character alone is dropped. -/
theorem not_dropsNothing_null :
    ¬ DropsNothing ['\x00'] := by
  have hEnd : (place ['\x00'] 0).atEnd = true := rfl
  have hToken : (place ['\x00'] 0).nextToken.1 = .endOfFile := by
    rw [nextToken, skipTrivia_of_atEnd hEnd]
    exact readToken_eq_endOfFile_iff.mpr hEnd
  have hHides : HidesNull ['\x00'] :=
    ⟨[], [], .finish [] ['\x00'] rfl hToken, .nil _⟩
  exact hHides.not_dropsNothing

end DotLang
