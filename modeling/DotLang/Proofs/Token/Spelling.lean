import DotLang.Proofs.Token.Strings

/-
  This file defines how each token may be written, as a relation
  that does not mention the lexer, and proves that the lexer
  reads it back wherever what follows does not go on with it.

  Key definitions include:
    * `IsMarkup`
    * `ClosesAngles`
    * `IsNumeralText`
    * `IsQuotable`
    * `Spells`
    * `Cursor.Separates`

  Key theorems include:
    * `takeMarkup_append`
    * `takeNumeral_append`
    * `IsQuotable.joinLines_eq`
    * `Spells.readToken`
-/

------------------------------------------------------------
-- Spellings
------------------------------------------------------------

namespace DotLang

/-
  The angle brackets of the text are balanced: no start of it
  closes more of them than it opens, and it closes all.
-/
def IsMarkup (text : List Char) : Prop :=
  (∀ part, part <+: text → part.count '>' ≤ part.count '<') ∧
    text.count '<' = text.count '>'

/-
  Digits with at most one period among them, one digit at least,
  and an optional minus sign in front.
-/
def IsNumeralText (text : List Char) : Prop :=
  ∃ sign digits,
    text = sign ++ digits ∧
      (sign = [] ∨ sign = ['-']) ∧
      (∀ c ∈ digits, c.isDigit = true ∨ c = '.') ∧
      digits.count '.' ≤ 1 ∧
      ∃ c ∈ digits, c.isDigit = true

/-
  Characters other than quotes and backslashes, and pairs of a
  backslash and a character.  No pair escapes a line end.
-/
inductive IsQuotable : List Char → Prop where
| nil : IsQuotable []
| plain
    (c : Char)
    (rest : List Char)
    (hQuote : c ≠ '"')
    (hEscape : c ≠ '\\')
    (hRest : IsQuotable rest) :
    IsQuotable (c :: rest)
| pair
    (c : Char)
    (rest : List Char)
    (hFeed : c ≠ '\n')
    (hReturn : c = '\r' → rest.head? ≠ some '\n')
    (hRest : IsQuotable rest) :
    IsQuotable ('\\' :: c :: rest)

/- The text is a way to write the token. -/
inductive Spells : List Char → Token → Prop where
| symbol
    (mark : Symbol) :
    Spells mark.spelling.toList (.symbol mark)
| keyword
    (word : Keyword)
    (text : List Char)
    (hText : text.map Char.toLower = word.spelling.toList) :
    Spells text (.keyword word)
| html
    (text : List Char)
    (hText : IsMarkup text) :
    Spells ('<' :: text ++ ['>']) (.html (String.ofList text))
| name
    (c : Char)
    (rest : List Char)
    (hStart : isNameStart c = true)
    (hBlank : isBlank c = false)
    (hRest : ∀ d ∈ rest, isNamePart d = true)
    (hWord :
      ∀ word : Keyword,
        (c :: rest).map Char.toLower ≠ word.spelling.toList) :
    Spells (c :: rest)
      (.identifier (String.ofList (c :: rest)))
| numeral
    (text : List Char)
    (hText : IsNumeralText text) :
    Spells text (.identifier (String.ofList text))
| quoted
    (text : List Char)
    (hText : IsQuotable text) :
    Spells ('"' :: text ++ ['"'])
      (.identifier (String.ofList text))

------------------------------------------------------------
-- Delimited Texts
------------------------------------------------------------

/-
  The text closes the angle brackets that are open in front of
  it and those that it opens, and no start of it closes more.
-/
structure ClosesAngles
    (depth : Nat)
    (text : List Char) : Prop where
  start :
    ∀ part, part <+: text →
      part.count '>' ≤ depth + part.count '<'
  whole : text.count '>' = depth + text.count '<'

namespace ClosesAngles

variable {depth inner : Nat} {c : Char} {text : List Char}

theorem nil_iff :
    ClosesAngles depth [] ↔ depth = 0 := by
  constructor
  · intro h
    simpa using h.whole.symm
  · rintro rfl
    exact ⟨by simp, by simp⟩

/-
  A character leads from the depth in front of it to the one
  behind it, and the rest of the text goes on from there.
-/
theorem cons_iff
    (hShift :
      ∀ part : List Char,
        (c :: part).count '>' + (inner + part.count '<') =
          part.count '>' + (depth + (c :: part).count '<')) :
    ClosesAngles depth (c :: text) ↔ ClosesAngles inner text := by
  have hWhole := hShift text
  constructor
  · intro h
    refine ⟨fun part hPart => ?_, ?_⟩
    · have hLe :=
        h.start (c :: part) ((List.prefix_cons_inj c).mpr hPart)
      have hStart := hShift part
      omega
    · have hEq := h.whole
      omega
  · intro h
    refine ⟨fun part hPart => ?_, ?_⟩
    · rcases List.prefix_cons_iff.mp hPart with
        rfl | ⟨rest, rfl, hRest⟩
      · simp
      · have hLe := h.start rest hRest
        have hStart := hShift rest
        omega
    · have hEq := h.whole
      omega

theorem open_iff :
    ClosesAngles depth ('<' :: text) ↔
      ClosesAngles (depth + 1) text :=
  cons_iff fun part => by
    rw [List.count_cons_self, List.count_cons_of_ne (by decide)]
    omega

theorem close_iff :
    ClosesAngles (depth + 1) ('>' :: text) ↔
      ClosesAngles depth text :=
  cons_iff fun part => by
    rw [List.count_cons_self, List.count_cons_of_ne (by decide)]
    omega

theorem other_iff
    (hOpen : c ≠ '<')
    (hClose : c ≠ '>') :
    ClosesAngles depth (c :: text) ↔ ClosesAngles depth text :=
  cons_iff fun part => by
    rw [List.count_cons_of_ne hOpen, List.count_cons_of_ne hClose]

/- A bracket that closes none of the open ones comes too early. -/
theorem not_close
    (h : ClosesAngles 0 ('>' :: text)) :
    False := by
  have hLe := h.start ['>'] (List.prefix_append ['>'] text)
  simp at hLe

end ClosesAngles

theorem isMarkup_iff
    {text : List Char} :
    IsMarkup text ↔ ClosesAngles 0 text := by
  constructor
  · intro h
    exact ⟨by simpa using h.1, by simpa using h.2.symm⟩
  · intro h
    exact ⟨by simpa using h.start, by simpa using h.whole.symm⟩

/- Brackets that are open so far are closed by the last one. -/
theorem takeMarkup_append
    {depth : Nat}
    {text : List Char}
    (hText : ClosesAngles depth text)
    (rest : List Char) :
    takeMarkup depth (text ++ '>' :: rest) =
      some (text, text.length + 1) := by
  induction text generalizing depth with
  | nil =>
      rw [ClosesAngles.nil_iff] at hText
      subst hText
      rfl
  | cons c text ih =>
      by_cases hOpen : c = '<'
      · subst hOpen
        have hRest := ih (ClosesAngles.open_iff.mp hText)
        simp [takeMarkup, hRest]
      · by_cases hClose : c = '>'
        · subst hClose
          cases depth with
          | zero => exact hText.not_close.elim
          | succ depth =>
              have hRest := ih (ClosesAngles.close_iff.mp hText)
              simp [takeMarkup, hRest]
        · have hRest :=
            ih ((ClosesAngles.other_iff hOpen hClose).mp hText)
          rw [List.cons_append, takeMarkup, hRest]
          · rfl
          · exact hOpen
          · exact fun _ => hClose
          · exact fun _ _ => hClose

/- No quote in a quotable text closes the string. -/
theorem IsQuotable.isQuotedText
    {text : List Char}
    (h : IsQuotable text) :
    IsQuotedText text := by
  induction h with
  | nil => exact isQuotedText_nil
  | plain c rest hQuote hEscape hRest ih =>
      exact (isQuotedText_plain_iff hEscape).mpr ⟨hQuote, ih⟩
  | pair c rest hFeed hReturn hRest ih =>
      exact isQuotedText_pair_iff.mpr ih

/- Reading leaves nothing out of a quotable text. -/
theorem IsQuotable.joinLines_eq
    {text : List Char}
    (h : IsQuotable text) :
    joinLines text = text := by
  induction h with
  | nil => rfl
  | plain c rest hQuote hEscape hRest ih =>
      rw [joinLines, ih]
      all_goals simp_all
  | pair c rest hFeed hReturn hRest ih =>
      rw [joinLines, ih]
      · exact hFeed
      · rintro more hEq rfl
        exact hReturn hEq rfl

/- Characters that do not belong to a numeral end it. -/
theorem takeNumeral_append
    {digits : List Char}
    (rest : List Char)
    (hDigits : ∀ c ∈ digits, c.isDigit = true ∨ c = '.')
    (hPeriod : digits.count '.' ≤ 1)
    (hRest :
      ∀ c, rest.head? = some c → c.isDigit = false ∧ c ≠ '.') :
    takeNumeral (digits ++ rest) = digits := by
  have hTakeRest : rest.takeWhile Char.isDigit = [] := by
    cases rest with
    | nil => rfl
    | cons c rest => simp [(hRest c rfl).1]
  by_cases hMem : '.' ∈ digits
  · rcases List.eq_append_cons_of_mem hMem with
      ⟨whole, fraction, rfl, hWhole⟩
    have hFraction : '.' ∉ fraction := by
      intro hIn
      have hPos : 0 < fraction.count '.' :=
        List.count_pos_iff.mpr hIn
      simp at hPeriod
      omega
    have hWholeDigits : ∀ c ∈ whole, c.isDigit = true := by
      intro c hc
      rcases hDigits c (by simp [hc]) with hDigit | rfl
      · exact hDigit
      · exact absurd hc hWhole
    have hFractionDigits : ∀ c ∈ fraction, c.isDigit = true := by
      intro c hc
      rcases hDigits c (by simp [hc]) with hDigit | rfl
      · exact hDigit
      · exact absurd hc hFraction
    have hPeriodDigit : ('.').isDigit = false := by decide
    unfold takeNumeral
    rw [List.append_assoc, List.takeWhile_append_of_pos hWholeDigits,
      List.dropWhile_append_of_pos hWholeDigits,
      List.cons_append,
      List.takeWhile_cons_of_neg (by simp [hPeriodDigit]),
      List.dropWhile_cons_of_neg (by simp [hPeriodDigit])]
    simp only [List.append_nil]
    rw [List.takeWhile_append_of_pos hFractionDigits, hTakeRest,
      List.append_nil]
  · have hAll : ∀ c ∈ digits, c.isDigit = true := by
      intro c hc
      rcases hDigits c hc with hDigit | rfl
      · exact hDigit
      · exact absurd hc hMem
    unfold takeNumeral
    rw [List.takeWhile_append_of_pos hAll,
      List.dropWhile_append_of_pos hAll, hTakeRest,
      List.append_nil]
    cases rest with
    | nil => rfl
    | cons c rest =>
        have hNot := hRest c rfl
        rw [List.dropWhile_cons_of_neg (by simp [hNot.1])]
        split
        · next hEq => exact absurd (List.cons.inj hEq).1 hNot.2
        · rfl

------------------------------------------------------------
-- Characters of Names
------------------------------------------------------------

theorem ofChar?_of_isNamePart
    {c : Char}
    (h : isNamePart c = true) :
    Symbol.ofChar? c = none := by
  unfold Symbol.ofChar?
  split
  all_goals first | rfl | exact absurd h (by decide)

/- No part of a name starts any other kind of token. -/
theorem ne_of_isNamePart
    {c : Char}
    (h : isNamePart c = true) :
    c ≠ '"' ∧ c ≠ '<' ∧ c ≠ '-' ∧ c ≠ '\x00' := by
  refine ⟨?_, ?_, ?_, ?_⟩
  all_goals
    rintro rfl
    exact absurd h (by decide)

theorem isNamePart_of_isNameStart
    {c : Char}
    (h : isNameStart c = true) :
    isNamePart c = true := by
  simp [isNamePart, h]

theorem isUpper_iff_toNat
    {c : Char} :
    c.isUpper = true ↔ 65 ≤ c.toNat ∧ c.toNat ≤ 90 := by
  show decide (65 ≤ c.val ∧ c.val ≤ 90) = true ↔ _
  rw [decide_eq_true_eq, UInt32.le_iff_toNat_le,
    UInt32.le_iff_toNat_le]
  rfl

theorem isLower_iff_toNat
    {c : Char} :
    c.isLower = true ↔ 97 ≤ c.toNat ∧ c.toNat ≤ 122 := by
  show (decide (97 ≤ c.val) && decide (c.val ≤ 122)) = true ↔ _
  rw [Bool.and_eq_true, decide_eq_true_eq, decide_eq_true_eq,
    UInt32.le_iff_toNat_le, UInt32.le_iff_toNat_le]
  rfl

/- Letters have upper or lower case. -/
theorem isAlpha_iff
    {c : Char} :
    c.isAlpha = true ↔ c.isUpper = true ∨ c.isLower = true := by
  show (c.isUpper || c.isLower) = true ↔ _
  rw [Bool.or_eq_true]

theorem isNameStart_of_isDigit
    {c : Char}
    (h : c.isDigit = true) :
    isNameStart c = false := by
  rw [Char.isDigit_iff_toNat] at h
  have hAlpha : c.isAlpha = false := by
    have hValues : ('0').toNat = 48 ∧ ('9').toNat = 57 := by
      decide
    rw [← Bool.not_eq_true, isAlpha_iff, isUpper_iff_toNat,
      isLower_iff_toNat]
    omega
  have hBar : c ≠ '_' := by
    rintro rfl
    revert h
    decide
  have hLow : ¬ 128 ≤ c.toNat := by
    have hNine : ('9').toNat = 57 := rfl
    omega
  simp [isNameStart, hAlpha, hBar, hLow]

theorem isNameStart_of_isAlpha
    {c : Char}
    (h : c.isAlpha = true) :
    isNameStart c = true := by
  simp [isNameStart, h]

theorem isAlpha_of_isLower_toLower
    {c : Char}
    (h : c.toLower.isLower = true) :
    c.isAlpha = true := by
  by_cases hUpper : c.isUpper = true
  · exact isAlpha_iff.mpr (Or.inl hUpper)
  · have hSame : c.toLower = c := by
      unfold Char.toLower
      rw [dif_neg]
      rw [isUpper_iff_toNat] at hUpper
      rw [ge_iff_le, UInt32.le_iff_toNat_le,
        UInt32.le_iff_toNat_le]
      exact hUpper
    rw [hSame] at h
    exact isAlpha_iff.mpr (Or.inr h)

namespace Keyword

theorem isLower_spelling
    (word : Keyword) :
    ∀ c ∈ word.spelling.toList, c.isLower = true := by
  rw [← List.all_eq_true]
  cases word <;> decide

/- A spelling of a keyword has letters only. -/
theorem isAlpha_of_spells
    {word : Keyword}
    {text : List Char}
    (hText : text.map Char.toLower = word.spelling.toList) :
    ∀ c ∈ text, c.isAlpha = true := by
  intro c hc
  apply isAlpha_of_isLower_toLower
  apply isLower_spelling word
  rw [← hText]
  exact List.mem_map_of_mem hc

theorem ofName?_eq_some
    {word : Keyword}
    {text : List Char}
    (hText : text.map Char.toLower = word.spelling.toList) :
    ofName? (String.ofList text) = some word := by
  unfold ofName?
  simp only [String.toList_ofList, hText]
  cases word <;> decide

theorem ofName?_eq_none
    {text : List Char}
    (hText :
      ∀ word : Keyword,
        text.map Char.toLower ≠ word.spelling.toList) :
    ofName? (String.ofList text) = none := by
  unfold ofName?
  simp only [String.toList_ofList]
  apply List.find?_eq_none.mpr
  intro word _
  simpa using (hText word).symm

end Keyword

------------------------------------------------------------
-- Reading Spellings
------------------------------------------------------------

namespace Cursor

/-
  What comes here does not go on with the token before: it is
  no part of a name or of a numeral, and no string is joined.
  The end of the text is such a place.
-/
structure Separates (c : Cursor) : Prop where
  notPart : isNamePart c.current = false
  notPeriod : c.current ≠ '.'
  notJoined : c.joined? = none

theorem joined?_eq_none
    {c : Cursor}
    (h : c.skipTrivia.current ≠ '+') :
    c.joined? = none := by
  simp [joined?, h]

/- A name is read up to what separates it. -/
theorem Faces.readName
    {c : Cursor}
    {text rest : List Char}
    (h : c.Faces (text ++ rest))
    (hText : ∀ d ∈ text, isNamePart d = true)
    (hRest : isNamePart (Cursor.advanceBy text.length c).current = false) :
    c.readName =
      (String.ofList text, Cursor.advanceBy text.length c) := by
  have hTake : c.ahead.takeWhile isNamePart = text := by
    have hBehind : (Cursor.advanceBy text.length c).Faces rest :=
      h.advanceBy_length
    rw [h.takeWhile_ahead (by decide),
      List.takeWhile_append_of_pos hText]
    cases rest with
    | nil => simp
    | cons d rest =>
        rw [hBehind.current_cons] at hRest
        simp [hRest]
  simp [Cursor.readName, hTake]

/- A numeral is read up to what separates it. -/
theorem Faces.readNumeral
    {c : Cursor}
    {digits rest : List Char}
    (h : c.Faces (digits ++ rest))
    (hDigits : ∀ d ∈ digits, d.isDigit = true ∨ d = '.')
    (hPeriod : digits.count '.' ≤ 1)
    (hRest : (Cursor.advanceBy digits.length c).Separates) :
    c.readNumeral =
      (String.ofList digits,
        Cursor.advanceBy digits.length c) := by
  have hBehind : (Cursor.advanceBy digits.length c).Faces rest :=
    h.advanceBy_length
  have hStop :
      ∀ d, rest.head? = some d → d.isDigit = false ∧ d ≠ '.' := by
    intro d hd
    have hCurrent :
        (Cursor.advanceBy digits.length c).current = d := by
      cases rest with
      | nil => cases hd
      | cons e rest =>
          cases hd
          exact hBehind.current_cons
    have hPart := hRest.notPart
    have hNot := hRest.notPeriod
    rw [hCurrent] at hPart hNot
    simp only [isNamePart, Bool.or_eq_false_iff] at hPart
    exact ⟨hPart.2, hNot⟩
  have hTake : takeNumeral c.ahead = digits := by
    cases hText : digits ++ rest with
    | nil =>
        simp only [List.append_eq_nil_iff] at hText
        rw [hText.1, hText.2] at h
        rw [h.ahead_nil, hText.1]
        decide
    | cons d text =>
        rw [hText] at h
        rw [h.ahead_cons, ← hText,
          takeNumeral_append rest hDigits hPeriod hStop]
  simp [Cursor.readNumeral, hTake]

/- A quotable text is read as it is written. -/
theorem Faces.readString
    {c : Cursor}
    {text rest : List Char}
    (h : c.Faces ('"' :: text ++ '"' :: rest))
    (hText : IsQuotable text) :
    c.readString =
      (some (String.ofList text),
        Cursor.advanceBy (text.length + 2) c) := by
  rw [h.readString_of_isQuotedText hText.isQuotedText,
    hText.joinLines_eq]

/- A word is read as a keyword or as a name. -/
theorem Faces.readToken_word
    {c : Cursor}
    {d : Char}
    {word rest : List Char}
    (h : c.Faces (d :: word ++ rest))
    (hStart : isNameStart d = true)
    (hWord : ∀ e ∈ word, isNamePart e = true)
    (hRest : (Cursor.advanceBy (d :: word).length c).Separates) :
    c.readToken =
      (match Keyword.ofName? (String.ofList (d :: word)) with
        | some keyword => .keyword keyword
        | none => .identifier (String.ofList (d :: word)),
        Cursor.advanceBy (d :: word).length c) := by
  have hCurrent : c.current = d := h.current_cons
  have hPart := isNamePart_of_isNameStart hStart
  have hOther := ne_of_isNamePart hPart
  have hParts : ∀ e ∈ d :: word, isNamePart e = true := by
    intro e he
    rcases List.mem_cons.mp he with rfl | hIn
    · exact hPart
    · exact hWord e hIn
  have hName := Faces.readName h hParts hRest.notPart
  have hEnd : c.atEnd = false :=
    atEnd_eq_false_of_ne (by rw [hCurrent]; exact hOther.2.2.2)
  unfold Cursor.readToken
  rw [hCurrent, ofChar?_of_isNamePart hPart]
  simp only [hOther.1, hOther.2.1, hOther.2.2.1, hEnd, hStart,
    if_false, if_true, Bool.false_eq_true, hName]
  cases Keyword.ofName? (String.ofList (d :: word)) <;> rfl

/- A numeral is read as an identifier. -/
theorem Faces.readToken_numeral
    {c : Cursor}
    {text rest : List Char}
    (h : c.Faces (text ++ rest))
    (hText : IsNumeralText text)
    (hRest : (Cursor.advanceBy text.length c).Separates) :
    c.readToken =
      (.identifier (String.ofList text),
        Cursor.advanceBy text.length c) := by
  rcases hText with
    ⟨sign, digits, rfl, hSign, hDigits, hPeriod, hSome⟩
  rcases hSome with ⟨some, hIn, _⟩
  cases digits with
  | nil => cases hIn
  | cons d digits =>
      have hFirst := hDigits d (by simp)
      rcases hSign with rfl | rfl
      · have hCurrent : c.current = d := h.current_cons
        have hNumeral := h.readNumeral hDigits hPeriod hRest
        have hMark : Symbol.ofChar? d = none := by
          rcases hFirst with hDigit | rfl
          · exact ofChar?_of_isNamePart
              (by simp [isNamePart, hDigit])
          · rfl
        have hOther :
            d ≠ '"' ∧ d ≠ '<' ∧ d ≠ '-' ∧ d ≠ '\x00' := by
          rcases hFirst with hDigit | rfl
          · exact ne_of_isNamePart (by simp [isNamePart, hDigit])
          · decide
        have hStart : isNameStart d = false := by
          rcases hFirst with hDigit | rfl
          · exact isNameStart_of_isDigit hDigit
          · decide
        have hEnd : c.atEnd = false :=
          atEnd_eq_false_of_ne
            (by rw [hCurrent]; exact hOther.2.2.2)
        unfold Cursor.readToken
        rw [hCurrent, hMark]
        simp only [hOther.1, hOther.2.1, hOther.2.2.1, hEnd,
          hStart, hFirst, if_false, if_true,
          Bool.false_eq_true, hNumeral]
      · have hCurrent : c.current = '-' := h.current_cons
        have hNext : c.advance.Faces (d :: digits ++ rest) :=
          h.advance
        have hNumeral :=
          hNext.readNumeral hDigits hPeriod hRest
        have hDigit : c.advance.current = d := hNext.current_cons
        have hOther : d ≠ '>' ∧ d ≠ '-' := by
          rcases hFirst with hDigit | rfl
          · have hPart : isNamePart d = true := by
              simp [isNamePart, hDigit]
            constructor
            all_goals
              rintro rfl
              exact absurd hPart (by decide)
          · decide
        rw [readToken_of_minus hCurrent]
        simp only [readAfterMinus, hDigit, hOther.1, hOther.2,
          hFirst, if_false, if_true, hNumeral]
        simp [String.ofList_cons]
        rfl

/- Markup is read up to its last bracket. -/
theorem Faces.readToken_html
    {c : Cursor}
    {text rest : List Char}
    (h : c.Faces ('<' :: text ++ '>' :: rest))
    (hText : IsMarkup text) :
    c.readToken =
      (.html (String.ofList text),
        Cursor.advanceBy (text.length + 2) c) := by
  have hCurrent : c.current = '<' := h.current_cons
  have hBody : c.advance.Faces (text ++ '>' :: rest) := h.advance
  have hAhead : c.advance.ahead = text ++ '>' :: rest := by
    cases text with
    | nil => exact hBody.ahead_cons
    | cons d text => exact hBody.ahead_cons
  have hTake :
      takeMarkup 0 (text ++ '>' :: rest) =
        some (text, text.length + 1) :=
    takeMarkup_append (isMarkup_iff.mp hText) rest
  rw [readToken_of_angle hCurrent]
  simp only [readHtml, hAhead, hTake]
  rfl

/- A quoted text to which no string is joined is read alone. -/
theorem Faces.readToken_quoted
    {c : Cursor}
    {text rest : List Char}
    (h : c.Faces ('"' :: text ++ '"' :: rest))
    (hText : IsQuotable text)
    (hRest :
      (Cursor.advanceBy (text.length + 2) c).joined? = none) :
    c.readToken =
      (.identifier (String.ofList text),
        Cursor.advanceBy (text.length + 2) c) := by
  have hCurrent : c.current = '"' := h.current_cons
  rw [readToken_of_quote hCurrent]
  simp only [readStrings, h.readString hText,
    readJoined_of_joined?_eq_none _ hRest]

/- A symbol is read whatever follows. -/
theorem Faces.readToken_symbol
    {c : Cursor}
    {mark : Symbol}
    {rest : List Char}
    (h : c.Faces (mark.spelling.toList ++ rest)) :
    c.readToken =
      (.symbol mark,
        Cursor.advanceBy mark.spelling.toList.length c) := by
  cases mark
  case arrow =>
    have hCurrent : c.current = '-' := h.current_cons
    have hNext : c.advance.current = '>' := h.advance.current_cons
    rw [readToken_of_minus hCurrent]
    simp only [readAfterMinus, hNext]
    rfl
  case line =>
    have hCurrent : c.current = '-' := h.current_cons
    have hNext : c.advance.current = '-' := h.advance.current_cons
    rw [readToken_of_minus hCurrent]
    simp only [readAfterMinus, hNext]
    rfl
  all_goals
    unfold Cursor.readToken
    rw [h.current_cons]
    rfl

end Cursor

open Cursor in
/-
  Every spelling of a token is read back as that token, and the
  cursor stays right behind it.
-/
theorem Spells.readToken
    {c : Cursor}
    {text rest : List Char}
    {token : Token}
    (h : Spells text token)
    (hFaces : c.Faces (text ++ rest))
    (hRest : (advanceBy text.length c).Separates) :
    c.readToken = (token, advanceBy text.length c) := by
  cases h with
  | symbol mark => exact hFaces.readToken_symbol
  | keyword word text hText =>
      cases text with
      | nil => cases word <;> exact absurd hText (by decide)
      | cons d text =>
          have hStart :
              ∀ e ∈ d :: text, isNameStart e = true := fun e he =>
            isNameStart_of_isAlpha
              (Keyword.isAlpha_of_spells hText e he)
          rw [hFaces.readToken_word (hStart d (by simp))
            (fun e he =>
              isNamePart_of_isNameStart (hStart e (by simp [he])))
            hRest, Keyword.ofName?_eq_some hText]
  | html text hText =>
      rw [List.append_assoc] at hFaces
      simpa using hFaces.readToken_html hText
  | name d text hStart hBlank hText hWord =>
      rw [hFaces.readToken_word hStart hText hRest,
        Keyword.ofName?_eq_none hWord]
  | numeral text hText => exact hFaces.readToken_numeral hText hRest
  | quoted text hText =>
      rw [List.append_assoc] at hFaces
      have hJoined := hRest.notJoined
      simp only [List.length_append, List.length_cons,
        List.length_nil] at hJoined
      simpa using hFaces.readToken_quoted hText hJoined

end DotLang
