import DotLang.Proofs.Token.Places

/-
  This file proves that quoted strings are read exactly.

  A string ends with the first quote that no backslash escapes.
  What is between the quotes is kept as it is written, but for
  the line ends behind a backslash.  Plus signs join strings to
  one token.  The lexer looks ahead for a plus sign and a string
  behind it, and stays right behind the last string.

  Key definitions include:
    * `IsQuotedText`
    * `joinLines`
    * `IsJoinedStrings`
    * `JoinsString`
    * `IsOpenString`

  Key theorems include:
    * `takeQuoted_of_isQuotedText`
    * `exists_isQuotedText_of_takeQuoted`
    * `exists_isJoinedStrings_or_isOpenString`
    * `Cursor.Faces.joined?_eq_none_iff`
    * `IsJoinedStrings.readOnto`
    * `IsOpenString.readOnto`
    * `Cursor.Faces.nextToken_quoted`
-/

------------------------------------------------------------
-- Texts between Quotes
------------------------------------------------------------

namespace DotLang

/-
  The text ends with a backslash that escapes what comes next.
  A backslash that is escaped itself does not.
-/
def endsEscaping (text : List Char) : Bool :=
  text.foldl (fun escaped c => !escaped && c = '\\') false

/-
  A text that goes on up to the quote behind it: each quote in
  it is escaped, and the one behind it is not.
-/
structure IsQuotedText (text : List Char) : Prop where
  escaped :
    ∀ before after,
      text = before ++ '"' :: after → endsEscaping before = true
  closed : endsEscaping text = false

/-
  A text without its escaped line ends, which are line feeds,
  alone or behind a carriage return.
-/
def joinLines : List Char → List Char
| [] => []
| '\\' :: '\n' :: rest => joinLines rest
| '\\' :: '\r' :: '\n' :: rest => joinLines rest
| '\\' :: c :: rest => '\\' :: c :: joinLines rest
| c :: rest => c :: joinLines rest

theorem endsEscaping_plain
    {c : Char}
    (text : List Char)
    (hEscape : c ≠ '\\') :
    endsEscaping (c :: text) = endsEscaping text := by
  simp [endsEscaping, hEscape]

theorem endsEscaping_pair
    (c : Char)
    (text : List Char) :
    endsEscaping ('\\' :: c :: text) = endsEscaping text := by
  simp [endsEscaping]

theorem isQuotedText_nil :
    IsQuotedText [] where
  escaped before after h := by simp at h
  closed := rfl

theorem isQuotedText_plain_iff
    {c : Char}
    {text : List Char}
    (hEscape : c ≠ '\\') :
    IsQuotedText (c :: text) ↔ c ≠ '"' ∧ IsQuotedText text := by
  constructor
  · intro h
    refine ⟨?_, ⟨?_, ?_⟩⟩
    · rintro rfl
      cases h.escaped [] text rfl
    · rintro before after rfl
      rw [← endsEscaping_plain before hEscape]
      exact h.escaped (c :: before) after rfl
    · rw [← endsEscaping_plain text hEscape]
      exact h.closed
  · rintro ⟨hQuote, h⟩
    refine ⟨?_, ?_⟩
    · intro before after hText
      rcases List.cons_eq_append_iff.mp hText with
        ⟨_, hHead⟩ | ⟨before, rfl, hTail⟩
      · exact absurd (List.cons.inj hHead).1.symm hQuote
      · rw [endsEscaping_plain before hEscape]
        exact h.escaped before after hTail
    · rw [endsEscaping_plain text hEscape]
      exact h.closed

theorem isQuotedText_pair_iff
    {c : Char}
    {text : List Char} :
    IsQuotedText ('\\' :: c :: text) ↔ IsQuotedText text := by
  constructor
  · intro h
    refine ⟨?_, ?_⟩
    · rintro before after rfl
      rw [← endsEscaping_pair c before]
      exact h.escaped ('\\' :: c :: before) after rfl
    · rw [← endsEscaping_pair c text]
      exact h.closed
  · intro h
    refine ⟨?_, ?_⟩
    · intro before after hText
      rcases List.cons_eq_append_iff.mp hText with
        ⟨_, hHead⟩ | ⟨before, rfl, hTail⟩
      · cases hHead
      · rcases List.cons_eq_append_iff.mp hTail with
          ⟨rfl, _⟩ | ⟨before, rfl, hMore⟩
        · rfl
        · rw [endsEscaping_pair]
          exact h.escaped before after hMore
    · rw [endsEscaping_pair]
      exact h.closed

/- A backslash without a partner does not end such a text. -/
theorem not_isQuotedText_backslash :
    ¬ IsQuotedText ['\\'] := by
  intro h
  cases h.closed

------------------------------------------------------------
-- Taking Strings
------------------------------------------------------------

/- Such a text is taken with the quote behind it. -/
theorem takeQuoted_of_isQuotedText
    {text : List Char}
    (rest : List Char)
    (h : IsQuotedText text) :
    takeQuoted (text ++ '"' :: rest) =
      some (joinLines text, text.length + 1) := by
  fun_induction joinLines text with
  | case1 => rfl
  | case2 text ih =>
      have hTake := ih (isQuotedText_pair_iff.mp h)
      simp [takeQuoted, hTake]
  | case3 text ih =>
      have hFeed := isQuotedText_pair_iff.mp h
      have hTake := ih
        ((isQuotedText_plain_iff (by decide)).mp hFeed).2
      simp [takeQuoted, hTake]
  | case4 c text hFeed hReturn ih =>
      have hTake := ih (isQuotedText_pair_iff.mp h)
      rw [List.cons_append, List.cons_append, takeQuoted, hTake]
      · simp
      · exact hFeed
      · intro more hEq hMore
        cases text with
        | nil => cases hMore
        | cons d text =>
            cases hMore
            exact hReturn text hEq rfl
  | case5 c text hFeed hReturn hPair ih =>
      have hEscape : c ≠ '\\' := by
        rintro rfl
        cases text with
        | nil => exact not_isQuotedText_backslash h
        | cons d text => exact hPair d text rfl rfl
      rcases (isQuotedText_plain_iff hEscape).mp h with
        ⟨hQuote, hText⟩
      rw [List.cons_append, takeQuoted, ih hText]
      · rfl
      all_goals simp_all

/- What is taken ends with the first quote that is not escaped. -/
theorem exists_isQuotedText_of_takeQuoted
    (text : List Char) :
    ∀ found, takeQuoted text = some found →
      ∃ content rest,
        text = content ++ '"' :: rest ∧ IsQuotedText content := by
  fun_induction takeQuoted text with
  | case1 => simp
  | case2 rest =>
      intro found hFound
      exact ⟨[], rest, rfl, isQuotedText_nil⟩
  | case3 rest ih =>
      intro found hFound
      rcases Option.map_eq_some_iff.mp hFound with ⟨inner, hInner, _⟩
      rcases ih inner hInner with ⟨content, more, rfl, hContent⟩
      exact ⟨'\\' :: '\n' :: content, more, rfl,
        isQuotedText_pair_iff.mpr hContent⟩
  | case4 rest ih =>
      intro found hFound
      rcases Option.map_eq_some_iff.mp hFound with ⟨inner, hInner, _⟩
      rcases ih inner hInner with ⟨content, more, rfl, hContent⟩
      exact ⟨'\\' :: '\r' :: '\n' :: content, more, rfl,
        isQuotedText_pair_iff.mpr
          ((isQuotedText_plain_iff (by decide)).mpr
            ⟨by decide, hContent⟩)⟩
  | case5 c rest hFeed hReturn ih =>
      intro found hFound
      rcases Option.map_eq_some_iff.mp hFound with ⟨inner, hInner, _⟩
      rcases ih inner hInner with ⟨content, more, rfl, hContent⟩
      exact ⟨'\\' :: c :: content, more, rfl,
        isQuotedText_pair_iff.mpr hContent⟩
  | case6 c rest hQuote hFeed hReturn hPair ih =>
      intro found hFound
      rcases Option.map_eq_some_iff.mp hFound with ⟨inner, hInner, _⟩
      rcases ih inner hInner with ⟨content, more, rfl, hContent⟩
      have hEscape : c ≠ '\\' := by
        rintro rfl
        cases content with
        | nil => exact hPair '"' more rfl rfl
        | cons d content => exact hPair d _ rfl rfl
      exact ⟨c :: content, more, rfl,
        (isQuotedText_plain_iff hEscape).mpr ⟨hQuote, hContent⟩⟩

------------------------------------------------------------
-- Joined Strings
------------------------------------------------------------

/- Strings with plus signs between them, and their contents. -/
inductive IsJoinedStrings : List (List Char) → List Char → Prop where
| last
    (content : List Char)
    (hContent : IsQuotedText content) :
    IsJoinedStrings [content] ('"' :: content ++ ['"'])
| join
    (content before after text : List Char)
    (contents : List (List Char))
    (hContent : IsQuotedText content)
    (hBefore : IsGap false before)
    (hAfter : IsGap false after)
    (hText : IsJoinedStrings contents text) :
    IsJoinedStrings (content :: contents)
      ('"' :: content ++ '"' :: before ++ '+' :: after ++ text)

/- The text starts with a plus sign and a string behind it. -/
def JoinsString (text : List Char) : Prop :=
  ∃ before after rest,
    IsGap false before ∧ IsGap false after ∧
      text = before ++ '+' :: after ++ '"' :: rest

/-
  The text starts with a quote that nothing closes, or with
  strings and such a quote joined to them.
-/
inductive IsOpenString : List Char → Prop where
| quote
    (text : List Char)
    (hOpen :
      ∀ content rest,
        text = content ++ '"' :: rest → ¬ IsQuotedText content) :
    IsOpenString ('"' :: text)
| join
    (content before after text : List Char)
    (hContent : IsQuotedText content)
    (hBefore : IsGap false before)
    (hAfter : IsGap false after)
    (hText : IsOpenString text) :
    IsOpenString
      ('"' :: content ++ '"' :: before ++ '+' :: after ++ text)

theorem IsJoinedStrings.exists_cons
    {contents : List (List Char)}
    {text : List Char}
    (h : IsJoinedStrings contents text) :
    ∃ rest, text = '"' :: rest := by
  cases h with
  | last content hContent => exact ⟨_, rfl⟩
  | join content before after text contents => exact ⟨_, rfl⟩

theorem IsOpenString.exists_cons
    {text : List Char}
    (h : IsOpenString text) :
    ∃ rest, text = '"' :: rest := by
  cases h with
  | quote text hOpen => exact ⟨_, rfl⟩
  | join content before after text => exact ⟨_, rfl⟩

/- Behind a quote there are strings to join, or an open one. -/
theorem exists_isJoinedStrings_or_isOpenString
    (text : List Char) :
    (∃ contents written rest,
      '"' :: text = written ++ rest ∧
        IsJoinedStrings contents written ∧ ¬ JoinsString rest) ∨
      IsOpenString ('"' :: text) := by
  induction hLength : text.length using Nat.strong_induction_on
    generalizing text with
  | _ n ih =>
  by_cases hClosed :
      ∃ content rest,
        text = content ++ '"' :: rest ∧ IsQuotedText content
  · rcases hClosed with ⟨content, rest, rfl, hContent⟩
    by_cases hJoins : JoinsString rest
    · rcases hJoins with ⟨before, after, more, hBefore, hAfter, rfl⟩
      have hLt : more.length < n := by
        rw [← hLength]
        simp only [List.length_append, List.length_cons]
        omega
      have hJoin :
          '"' :: (content ++
              '"' :: (before ++ '+' :: after ++ '"' :: more)) =
            '"' :: content ++ '"' :: before ++ '+' :: after ++
              '"' :: more := by
        simp
      rw [hJoin]
      rcases ih more.length hLt more rfl with
        ⟨contents, written, rest, hText, hWritten, hRest⟩ | hMore
      · rw [hText, ← List.append_assoc]
        exact Or.inl ⟨_, _, rest, rfl,
          .join content before after written contents hContent
            hBefore hAfter hWritten, hRest⟩
      · exact Or.inr (.join content before after _ hContent hBefore
          hAfter hMore)
    · exact Or.inl ⟨[content], '"' :: content ++ ['"'], rest,
        by simp, .last content hContent, hJoins⟩
  · exact Or.inr (.quote text fun content rest hText hContent =>
      hClosed ⟨content, rest, hText, hContent⟩)

------------------------------------------------------------
-- Looking Ahead
------------------------------------------------------------

namespace Cursor

/- A gap is skipped up to a plus sign or a quote. -/
theorem Faces.skipTrivia_gap
    {c : Cursor}
    {gap rest : List Char}
    {d : Char}
    (h : c.Faces (gap ++ d :: rest))
    (hGap : IsGap false gap)
    (hMark : d = '+' ∨ d = '"') :
    c.skipTrivia = Cursor.advanceBy gap.length c := by
  have hCurrent : (Cursor.advanceBy gap.length c).current = d :=
    h.advanceBy_length.current_cons
  rw [hGap.skipTrivia h (by simp)]
  apply skipTrivia_eq_self <;> rw [hCurrent] <;>
    rcases hMark with rfl | rfl <;> decide

/- Within a line, what is skipped to reach a character is a gap. -/
theorem Faces.isGap_of_skipTrivia
    {c : Cursor}
    {text : List Char}
    {d : Char}
    (h : c.Faces text)
    (hColumn : 1 < c.column)
    (hCurrent : c.skipTrivia.current = d)
    (hNull : d ≠ '\x00') :
    ∃ gap rest,
      text = gap ++ d :: rest ∧ IsGap false gap ∧
        c.skipTrivia = Cursor.advanceBy gap.length c := by
  rcases h.exists_isGap (by omega) with
    ⟨gap, rest, rfl, hGap, hSkip | ⟨-, hEnd⟩⟩
  · have hRest : c.skipTrivia.Faces rest := by
      rw [hSkip]
      exact h.advanceBy_length
    rcases hRest.eq_cons (by rwa [hCurrent]) with ⟨more, rfl⟩
    rw [decide_eq_false (by omega)] at hGap
    exact ⟨gap, more, by rw [hCurrent], hGap, hSkip⟩
  · exact absurd (hCurrent.symm.trans hEnd.1) hNull

/- A string behind a plus sign is found. -/
theorem Faces.joined?_eq_some
    {c : Cursor}
    {before after rest : List Char}
    (h : c.Faces (before ++ '+' :: after ++ '"' :: rest))
    (hBefore : IsGap false before)
    (hAfter : IsGap false after) :
    c.joined? =
      some (Cursor.advanceBy (before.length + (after.length + 1)) c)
      := by
  have hText : c.Faces (before ++ '+' :: (after ++ '"' :: rest)) := by
    simpa using h
  have hPlus :
      (Cursor.advanceBy before.length c).Faces
        ('+' :: (after ++ '"' :: rest)) :=
    hText.advanceBy_length
  have hNext :
      (Cursor.advanceBy before.length c).advance.Faces
        (after ++ '"' :: rest) :=
    hPlus.advance
  have hQuote := hNext.advanceBy_length.current_cons
  unfold Cursor.joined?
  rw [hText.skipTrivia_gap hBefore (Or.inl rfl)]
  simp only [hPlus.current_cons,
    hNext.skipTrivia_gap hAfter (Or.inr rfl), hQuote, if_true]
  rw [advanceBy_add, Nat.add_comm, advanceBy_add]
  rfl

end Cursor

/- A string that is joined is found. -/
theorem JoinsString.joined?_ne_none
    {c : Cursor}
    {text : List Char}
    (h : JoinsString text)
    (hFaces : c.Faces text) :
    c.joined? ≠ none := by
  rcases h with ⟨before, after, rest, hBefore, hAfter, rfl⟩
  rw [hFaces.joined?_eq_some hBefore hAfter]
  exact Option.some_ne_none _

namespace Cursor

/- A string that is found behind a plus sign is joined. -/
theorem Faces.joinsString_of_joined?
    {c next : Cursor}
    {text : List Char}
    (h : c.Faces text)
    (hColumn : 1 < c.column)
    (hJoined : c.joined? = some next) :
    JoinsString text := by
  unfold Cursor.joined? at hJoined
  simp only at hJoined
  split at hJoined
  · next hPlus =>
      split at hJoined
      · next hQuote =>
          rcases h.isGap_of_skipTrivia hColumn hPlus (by decide) with
            ⟨before, text, rfl, hBefore, hSkip⟩
          rw [hSkip] at hQuote
          have hMark :
              (Cursor.advanceBy before.length c).Faces
                ('+' :: text) :=
            h.advanceBy_length
          have hStart :=
            column_advanceBy_pos before.length (by omega : 0 < c.column)
          have hNext :
              1 < (Cursor.advanceBy before.length c).advance.column := by
            rw [hMark.column_advance (by decide) (by decide)]
            omega
          rcases hMark.advance.isGap_of_skipTrivia hNext hQuote
            (by decide) with ⟨after, rest, hRest, hAfter, _⟩
          refine ⟨before, after, rest, hBefore, hAfter, ?_⟩
          simpa using hRest
      · cases hJoined
  · cases hJoined

/- The look-ahead finds a string just where one is joined. -/
theorem Faces.joined?_eq_none_iff
    {c : Cursor}
    {text : List Char}
    (h : c.Faces text)
    (hColumn : 1 < c.column) :
    c.joined? = none ↔ ¬ JoinsString text := by
  constructor
  · intro hNone hJoins
    exact hJoins.joined?_ne_none h hNone
  · intro hNot
    rw [Option.eq_none_iff_forall_ne_some]
    intro next hNext
    exact hNot (h.joinsString_of_joined? hColumn hNext)

/- Behind the closing quote of a string the line goes on. -/
theorem Faces.one_lt_column_behind
    {c : Cursor}
    {content rest : List Char}
    (h : c.Faces ('"' :: content ++ '"' :: rest)) :
    1 < (Cursor.advanceBy (content.length + 2) c).column := by
  have hOpen : 0 < c.advance.column := by
    rw [Faces.column_advance h (by decide) (by decide)]
    omega
  have hClose :
      (Cursor.advanceBy content.length c.advance).Faces
        ('"' :: rest) :=
    Faces.advanceBy_length h.advance
  have hColumn := hClose.column_advance (by decide) (by decide)
  have hPos := column_advanceBy_pos content.length hOpen
  have hEnd :
      Cursor.advanceBy (content.length + 2) c =
        (Cursor.advanceBy content.length c.advance).advance :=
    advanceBy_add content.length 1 c.advance
  rw [hEnd, hColumn]
  omega

------------------------------------------------------------
-- Reading Strings
------------------------------------------------------------

/- A string that is closed is read with both of its quotes. -/
theorem Faces.readString_of_isQuotedText
    {c : Cursor}
    {content rest : List Char}
    (h : c.Faces ('"' :: content ++ '"' :: rest))
    (hContent : IsQuotedText content) :
    c.readString =
      (some (String.ofList (joinLines content)),
        Cursor.advanceBy (content.length + 2) c) := by
  have hBody : c.advance.Faces (content ++ '"' :: rest) := h.advance
  have hAhead : c.advance.ahead = content ++ '"' :: rest := by
    cases content with
    | nil => exact hBody.ahead_cons
    | cons d content => exact hBody.ahead_cons
  simp only [Cursor.readString, hAhead,
    takeQuoted_of_isQuotedText rest hContent]
  rfl

/- A string that nothing closes is not read. -/
theorem Faces.readString_eq_none
    {c : Cursor}
    {text : List Char}
    (h : c.Faces ('"' :: text))
    (hOpen :
      ∀ content rest,
        text = content ++ '"' :: rest → ¬ IsQuotedText content) :
    c.readString.1 = none := by
  have hBody : c.advance.Faces text := h.advance
  have hTake : takeQuoted c.advance.ahead = none := by
    cases text with
    | nil =>
        rw [hBody.ahead_nil]
        decide
    | cons d text =>
        rw [hBody.ahead_cons]
        cases hTake : takeQuoted (d :: text) with
        | none => rfl
        | some found =>
            rcases exists_isQuotedText_of_takeQuoted _ found hTake
              with ⟨content, rest, hText, hContent⟩
            exact absurd hContent (hOpen content rest hText)
  simp only [Cursor.readString, hTake]

/- The string that starts here, and those joined to it. -/
def readOnto
    (text : String)
    (c : Cursor) : Token × Cursor :=
  match c.readString with
  | (none, after) => (.malformed .openString, after)
  | (some more, after) => readJoined (text ++ more) after

theorem readStrings_eq_readOnto
    (c : Cursor) :
    c.readStrings = readOnto "" c := by
  unfold readStrings readOnto
  cases c.readString with
  | mk found after => cases found <;> simp

theorem readOnto_of_readString
    {c after : Cursor}
    {more : String}
    (text : String)
    (h : c.readString = (some more, after)) :
    readOnto text c = readJoined (text ++ more) after := by
  rw [readOnto, h]

theorem readOnto_of_readString_eq_none
    {c : Cursor}
    (text : String)
    (h : c.readString.1 = none) :
    (readOnto text c).1 = .malformed .openString := by
  unfold readOnto
  split
  · rfl
  · next hRead =>
      rw [hRead] at h
      cases h

/- Where no string is joined, a text is an identifier. -/
theorem readJoined_of_joined?_eq_none
    {c : Cursor}
    (text : String)
    (h : c.joined? = none) :
    c.readJoined text = (.identifier text, c) := by
  rw [readJoined]
  split
  · rfl
  · next next hNext =>
      rw [h] at hNext
      cases hNext

/- A string that is joined is read onto the text. -/
theorem readJoined_of_joined?_eq_some
    {c next : Cursor}
    (text : String)
    (h : c.joined? = some next) :
    c.readJoined text = readOnto text next := by
  rw [readJoined]
  split
  · next hNone =>
      rw [h] at hNone
      cases hNone
  · next found hFound =>
      rw [h] at hFound
      cases hFound
      unfold readOnto
      split <;> next hRead => rw [hRead]

/- A string and what is joined to it are read in turn. -/
theorem Faces.readOnto_join
    {c : Cursor}
    {content before after rest : List Char}
    (text : String)
    (h :
      c.Faces
        ('"' :: content ++ '"' :: before ++ '+' :: after ++
          '"' :: rest))
    (hContent : IsQuotedText content)
    (hBefore : IsGap false before)
    (hAfter : IsGap false after) :
    readOnto text c =
      readOnto (text ++ String.ofList (joinLines content))
        (Cursor.advanceBy
          ('"' :: content ++ '"' :: before ++ '+' :: after).length
          c) := by
  have hText :
      c.Faces
        ('"' :: content ++
          '"' :: (before ++ '+' :: after ++ '"' :: rest)) := by
    simpa using h
  have hBehind :
      (Cursor.advanceBy (content.length + 2) c).Faces
        (before ++ '+' :: after ++ '"' :: rest) := by
    simpa using hText.advanceBy (content.length + 2)
  rw [readOnto_of_readString text
      (hText.readString_of_isQuotedText hContent),
    readJoined_of_joined?_eq_some _
      (hBehind.joined?_eq_some hBefore hAfter), ← advanceBy_add]
  congr 2
  simp only [List.length_append, List.length_cons]
  omega

end Cursor

open Cursor in
/- Joined strings are read as one text, and nothing behind them. -/
theorem IsJoinedStrings.readOnto
    {contents : List (List Char)}
    {written rest : List Char}
    {c : Cursor}
    (h : IsJoinedStrings contents written)
    (text : String)
    (hFaces : c.Faces (written ++ rest))
    (hRest : ¬ JoinsString rest) :
    Cursor.readOnto text c =
      (.identifier
          (text ++ String.ofList (contents.flatMap joinLines)),
        advanceBy written.length c) := by
  induction h generalizing c text with
  | last content hContent =>
      have hText : c.Faces ('"' :: content ++ '"' :: rest) := by
        simpa using hFaces
      have hBehind :
          (advanceBy (content.length + 2) c).Faces rest := by
        simpa using hText.advanceBy (content.length + 2)
      have hJoined :
          (advanceBy (content.length + 2) c).joined? = none :=
        (hBehind.joined?_eq_none_iff
          hText.one_lt_column_behind).mpr hRest
      rw [readOnto_of_readString text
          (hText.readString_of_isQuotedText hContent),
        readJoined_of_joined?_eq_none _ hJoined]
      simp
  | join content before after more contents hContent hBefore hAfter
      hMore ih =>
      rcases hMore.exists_cons with ⟨tail, hTail⟩
      have hText :
          c.Faces
            ('"' :: content ++ '"' :: before ++ '+' :: after ++
              '"' :: (tail ++ rest)) := by
        simpa [hTail] using hFaces
      have hNext :
          (advanceBy
            ('"' :: content ++ '"' :: before ++ '+' :: after).length
            c).Faces (more ++ rest) := by
        rw [List.append_assoc] at hFaces
        exact hFaces.advanceBy_length
      rw [hText.readOnto_join text hContent hBefore hAfter,
        ih _ hNext, ← advanceBy_add, ← List.length_append,
        List.flatMap_cons, String.ofList_append, String.append_assoc]

open Cursor in
/- A quote that nothing closes makes the token malformed. -/
theorem IsOpenString.readOnto
    {written : List Char}
    {c : Cursor}
    (h : IsOpenString written)
    (text : String)
    (hFaces : c.Faces written) :
    (Cursor.readOnto text c).1 = .malformed .openString := by
  induction h generalizing c text with
  | quote tail hOpen =>
      exact readOnto_of_readString_eq_none text
        (hFaces.readString_eq_none hOpen)
  | join content before after more hContent hBefore hAfter hMore ih =>
      rcases hMore.exists_cons with ⟨tail, rfl⟩
      rw [hFaces.readOnto_join text hContent hBefore hAfter]
      exact ih _ hFaces.advanceBy_length

------------------------------------------------------------
-- Strings as Tokens
------------------------------------------------------------

namespace Cursor

/- At a quote the next token is the string there. -/
theorem Faces.nextToken_eq_readOnto
    {c : Cursor}
    {text : List Char}
    (h : c.Faces ('"' :: text)) :
    c.nextToken = readOnto "" c := by
  have hCurrent : c.current = '"' := h.current_cons
  have hSkip : c.skipTrivia = c := by
    apply skipTrivia_eq_self <;> rw [hCurrent] <;> decide
  rw [nextToken, hSkip, ← readStrings_eq_readOnto,
    readToken_of_quote hCurrent]

/-
  Strings that are joined are one identifier: their contents in
  their order, without escaped line ends.  The cursor then is
  right behind the last quote, whatever it looked at.  A quote
  that nothing closes makes the token malformed, and nothing
  else does.
-/
theorem Faces.nextToken_quoted
    {c : Cursor}
    {text : List Char}
    (h : c.Faces text)
    (hQuote : text.head? = some '"') :
    (∀ contents written rest,
      text = written ++ rest →
        IsJoinedStrings contents written →
          ¬ JoinsString rest →
            c.nextToken =
              (.identifier
                  (String.ofList (contents.flatMap joinLines)),
                Cursor.advanceBy written.length c)) ∧
      (c.nextToken.1 = .malformed .openString ↔
        IsOpenString text) := by
  rcases List.head?_eq_some_iff.mp hQuote with ⟨tail, rfl⟩
  have hJoined :
      ∀ contents written rest,
        '"' :: tail = written ++ rest →
          IsJoinedStrings contents written →
            ¬ JoinsString rest →
              c.nextToken =
                (.identifier
                    (String.ofList (contents.flatMap joinLines)),
                  Cursor.advanceBy written.length c) := by
    intro contents written rest hText hWritten hRest
    rw [h.nextToken_eq_readOnto,
      hWritten.readOnto "" (hText ▸ h) hRest, String.empty_append]
  refine ⟨hJoined, ?_, ?_⟩
  · intro hToken
    rcases exists_isJoinedStrings_or_isOpenString tail with
      ⟨contents, written, rest, hText, hWritten, hRest⟩ | hOpen
    · rw [hJoined contents written rest hText hWritten hRest]
        at hToken
      cases hToken
    · exact hOpen
  · intro hOpen
    rw [h.nextToken_eq_readOnto]
    exact hOpen.readOnto "" h

/-
  Two strings with a comment and a marked line between them, and
  a plus sign behind them that joins nothing.  In the second
  text the string that is joined is open.
-/
theorem Faces.nextToken_quoted_sample :
    let written :=
      "\"a\\\nb\\\"\" /* \" */\n# +\n+ \"c\\\r\nd\"".toList
    let text := written ++ " + e".toList
    let c := start text
    c.nextToken.1 = .identifier "ab\\\"cd" ∧
      c.nextToken.2 = Cursor.advanceBy written.length c ∧
      c.nextToken.2.location =
        { line := 5, column := 3, offset := 31 } ∧
      (start "\"a\" + \"b".toList).nextToken.1 =
        .malformed .openString := by
  intro written text c
  have hWritten :
      IsJoinedStrings
        [['a', '\\', '\n', 'b', '\\', '"'],
          ['c', '\\', '\r', '\n', 'd']] written := by
    have hText :
        written =
          '"' :: ['a', '\\', '\n', 'b', '\\', '"'] ++
            '"' ::
              (' ' :: (['/', '*', ' ', '"', ' ', '*', '/'] ++
                '\n' :: (['#', ' ', '+', '\n'] ++ []))) ++
            '+' :: [' '] ++
            ('"' :: ['c', '\\', '\r', '\n', 'd'] ++ ['"']) := by
      decide +kernel
    rw [hText]
    refine .join _ _ _ _ _ ?_ ?_ ?_ (.last _ ?_)
    · simp [isQuotedText_pair_iff, isQuotedText_plain_iff,
        isQuotedText_nil]
    · exact .blank _ ' ' _ rfl (.comment _ _ _ _
        (.block _ [' ', '"', ' '] (by decide))
        (.blank _ '\n' _ rfl (.comment _ _ _ []
          (.number [' ', '+'] (by decide)) (.nil _))))
    · exact .blank _ ' ' _ rfl (.nil _)
    · simp [isQuotedText_pair_iff, isQuotedText_plain_iff,
        isQuotedText_nil]
  have hRest : ¬ JoinsString " + e".toList := by
    intro hJoins
    exact hJoins.joined?_ne_none (faces_start _) (by decide +kernel)
  have hOpen : IsOpenString "\"a\" + \"b".toList := by
    have hText :
        "\"a\" + \"b".toList =
          '"' :: ['a'] ++ '"' :: [' '] ++ '+' :: [' '] ++
            '"' :: ['b'] := by
      decide +kernel
    rw [hText]
    refine .join _ _ _ _ ?_ (.blank _ ' ' _ rfl (.nil _))
      (.blank _ ' ' _ rfl (.nil _)) (.quote _ ?_)
    · simp [isQuotedText_plain_iff, isQuotedText_nil]
    · intro content rest hContent
      have hMem : '"' ∈ ['b'] := by simp [hContent]
      simp at hMem
  have hJoined := ((faces_start text).nextToken_quoted
    (by decide +kernel)).1 _ written _ rfl hWritten hRest
  refine ⟨?_, ?_, ?_, ((faces_start _).nextToken_quoted
    (by decide +kernel)).2.mpr hOpen⟩
  · rw [hJoined]
    decide +kernel
  · rw [hJoined]
  · rw [hJoined]
    decide +kernel

end Cursor

end DotLang
