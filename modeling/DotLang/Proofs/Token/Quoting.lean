import DotLang.Proofs.Token.Layout
import DotLang.Text.Quoted

/-
  This file proves that an identifier that the lexer reads back
  from how it is written is written in one of the ways that are
  read wherever they stand.

  Key definitions include:
    * `ReadsBack`
    * `IsReadAs`
    * `HidesBlank`

  Key theorems include:
    * `isReadAs_escapeQuotes`
    * `ReadsBack.spells`
    * `readsBack_iff`
-/

------------------------------------------------------------
-- Reading Back
------------------------------------------------------------

namespace DotLang

/- The written identifier is one token, which is its text. -/
def ReadsBack (name : String) : Prop :=
  (TokenStream.ofText (quoteIdentifier name).toList).toList.map
      Located.token =
    [.identifier name, .endOfFile]

theorem ReadsBack.tokens_eq
    {name : String}
    (h : ReadsBack name) :
    (Cursor.start (quoteIdentifier name).toList).tokens.tokens.map
        Located.token =
      [.identifier name] := by
  have hAppend :
      (Cursor.start (quoteIdentifier name).toList).tokens.tokens.map
          Located.token ++ [Token.endOfFile] =
        [.identifier name] ++ [.endOfFile] := by
    simpa [ReadsBack, TokenStream.toList, TokenStream.ofText] using h
  exact List.append_cancel_right hAppend

------------------------------------------------------------
-- Quoted Identifiers
------------------------------------------------------------

theorem takeQuoted_feed
    (rest : List Char) :
    takeQuoted ('\n' :: rest) =
      (takeQuoted rest).map fun found =>
        ('\n' :: found.1, found.2 + 1) := by
  simp [takeQuoted]

/-
  A text is read as some content from how it is written.  Reading
  drops line ends that are escaped, and nothing else; a text that
  keeps all of them is read as it is written.
-/
structure IsReadAs
    (text written content : List Char) : Prop where
  takes :
    takeQuoted (written ++ ['"']) =
      some (content, written.length + 1)
  count_le : content.count '\n' ≤ text.count '\n'
  same :
    content.count '\n' = text.count '\n' →
      content = written ∧ IsQuotable written

namespace IsReadAs

variable {text written content : List Char}

theorem escapedFeed
    (h : IsReadAs text written content) :
    IsReadAs ('\\' :: '\n' :: text) ('\\' :: '\n' :: written)
      content where
  takes := by
    simp [takeQuoted, h.takes]
  count_le := by
    have hLe := h.count_le
    simp
    omega
  same hEq := by
    have hLe := h.count_le
    simp at hEq
    omega

/- A line end of two characters goes with the one before it. -/
theorem escapedReturn
    (h : IsReadAs text ('\n' :: written) content) :
    ∃ content',
      IsReadAs ('\\' :: '\r' :: text) ('\\' :: '\r' :: '\n' :: written)
        content' := by
  have hTakes := h.takes
  have hLe := h.count_le
  cases hMore : takeQuoted (written ++ ['"']) with
  | none => simp [takeQuoted_feed, hMore] at hTakes
  | some found =>
      rw [List.cons_append, takeQuoted_feed, hMore,
        Option.map_some] at hTakes
      rcases Prod.mk.inj (Option.some.inj hTakes) with
        ⟨rfl, hLength⟩
      refine ⟨found.1, ?_, ?_, ?_⟩
      · simp only [List.length_cons] at hLength ⊢
        simp only [List.cons_append, takeQuoted, hMore,
          Option.map_some]
        rw [show found.2 + 3 = written.length + 1 + 1 + 1 + 1
          by omega]
      · simp at hLe ⊢
        omega
      · intro hEq
        simp at hLe hEq
        omega

/- Any other character stays behind the backslash before it. -/
theorem pair
    (h : IsReadAs text written content)
    {c : Char}
    (hFeed : c ≠ '\n')
    (hReturn : ¬ (c = '\r' ∧ written.head? = some '\n'))
    {text' : List Char}
    (hCount : text'.count '\n' = text.count '\n') :
    IsReadAs text' ('\\' :: c :: written)
      ('\\' :: c :: content) where
  takes := by
    rw [List.cons_append, List.cons_append, takeQuoted, h.takes]
    · rfl
    · exact hFeed
    · intro more hEq hMore
      apply hReturn
      refine ⟨hEq, ?_⟩
      cases written with
      | nil => simp at hMore
      | cons d others => simp_all
  count_le := by
    rw [hCount]
    simpa [hFeed] using h.count_le
  same hEq := by
    rw [hCount] at hEq
    rcases h.same (by simpa [hFeed] using hEq) with
      ⟨rfl, hQuotable⟩
    refine ⟨rfl, .pair c _ hFeed ?_ hQuotable⟩
    intro hEq hHead
    exact hReturn ⟨hEq, hHead⟩

theorem plain
    (h : IsReadAs text written content)
    {c : Char}
    (hQuote : c ≠ '"')
    (hEscape : c ≠ '\\') :
    IsReadAs (c :: text) (c :: written) (c :: content) where
  takes := by
    rw [List.cons_append, takeQuoted, h.takes]
    · rfl
    all_goals simp_all
  count_le := by
    have hLe := h.count_le
    simp only [List.count_cons]
    omega
  same hEq := by
    simp only [List.count_cons] at hEq
    rcases h.same (by omega) with ⟨rfl, hQuotable⟩
    exact ⟨rfl, .plain c _ hQuote hEscape hQuotable⟩

end IsReadAs

/- A text is read as something from how it is escaped. -/
theorem isReadAs_escapeQuotes
    (text : List Char) :
    ∃ content, IsReadAs text (escapeQuotes text) content := by
  fun_induction escapeQuotes text with
  | case1 => exact ⟨[], rfl, by simp, fun _ => ⟨rfl, .nil⟩⟩
  | case2 =>
      exact ⟨['\\', '\\'], by decide, by decide, fun _ =>
        ⟨rfl, .pair '\\' [] (by decide) (by decide) .nil⟩⟩
  | case3 c rest ih =>
      rcases ih with ⟨content, h⟩
      by_cases hFeed : c = '\n'
      · subst hFeed
        exact ⟨content, h.escapedFeed⟩
      · by_cases hReturn :
            c = '\r' ∧ (escapeQuotes rest).head? = some '\n'
        · rcases hReturn with ⟨rfl, hHead⟩
          rcases List.head?_eq_some_iff.mp hHead with
            ⟨more, hRest⟩
          rw [hRest] at h ⊢
          exact h.escapedReturn
        · exact ⟨_, h.pair hFeed hReturn (by simp [hFeed])⟩
  | case4 rest ih =>
      rcases ih with ⟨content, h⟩
      have hQuote : ¬ ('"' = '\r' ∧
          (escapeQuotes rest).head? = some '\n') := by
        rintro ⟨hEq, -⟩
        exact absurd hEq (by decide)
      exact ⟨_, h.pair (by decide) hQuote (by simp)⟩
  | case5 c rest hLast hEscape hQuote ih =>
      rcases ih with ⟨content, h⟩
      refine ⟨c :: content, h.plain hQuote ?_⟩
      intro hEq
      cases rest with
      | nil => exact hLast hEq rfl
      | cons d rest => exact hEscape d rest hEq rfl

open Cursor in
/- A text in quotes is one token. -/
theorem tokens_of_takeQuoted
    {text content : List Char}
    (hTake :
      takeQuoted (text ++ ['"']) = some (content, text.length + 1)) :
    (start ('"' :: text ++ ['"'])).tokens.tokens.map Located.token =
      [.identifier (String.ofList content)] := by
  have hFaces :
      (start ('"' :: text ++ ['"'])).Faces
        ('"' :: (text ++ ['"'])) := faces_start _
  have hCurrent := hFaces.current_cons
  have hBody :
      (start ('"' :: text ++ ['"'])).advance.Faces
        (text ++ ['"']) := hFaces.advance
  have hAhead :
      (start ('"' :: text ++ ['"'])).advance.ahead =
        text ++ ['"'] := by
    cases text with
    | nil => exact hBody.ahead_cons
    | cons d text => exact hBody.ahead_cons
  have hEnd :
      (advanceBy (text.length + 1)
        (start ('"' :: text ++ ['"'])).advance).Faces [] := by
    have hBehind := hBody.advanceBy (text.length + 1)
    rwa [List.drop_of_length_le (by simp)] at hBehind
  have hToken : (start ('"' :: text ++ ['"'])).AtToken := by
    constructor <;> rw [hCurrent] <;> decide
  have hJoined :=
    joined?_eq_none (hEnd.atToken_nil.skipTrivia ▸
      hEnd.atToken_nil.notPlus)
  have hRead :
      (start ('"' :: text ++ ['"'])).readToken =
        (.identifier (String.ofList content),
          advanceBy (text.length + 1)
            (start ('"' :: text ++ ['"'])).advance) := by
    rw [readToken_of_quote hCurrent]
    simp only [readStrings, readString, hAhead, hTake]
    exact readJoined_of_joined?_eq_none _ hJoined
  have hFirst :
      (start ('"' :: text ++ ['"'])).skipTrivia.readToken = _ :=
    (congrArg readToken hToken.skipTrivia).trans hRead
  rw [tokens_of_readToken hFirst (by simp), tokens_of_faces_nil]
  · rfl
  · rwa [hEnd.atToken_nil.skipTrivia]

------------------------------------------------------------
-- Bare Identifiers
------------------------------------------------------------

/- A numeral has digits, one period at most, and one digit. -/
theorem isNumeralText_of_isUnsignedNumeral
    {sign text : List Char}
    (hSign : sign = [] ∨ sign = ['-'])
    (h : isUnsignedNumeral text = true) :
    IsNumeralText (sign ++ text) := by
  simp only [isUnsignedNumeral, Bool.and_eq_true,
    decide_eq_true_eq] at h
  rcases h with ⟨⟨hSome, hPeriod⟩, hTake⟩
  have hDigit :
      ∀ part : List Char,
        ∀ c ∈ part.takeWhile Char.isDigit, c.isDigit = true := by
    intro part
    exact List.all_eq_true.mp List.all_takeWhile
  have hCount :
      ∀ part : List Char,
        (part.takeWhile Char.isDigit).count '.' = 0 := by
    intro part
    apply List.count_eq_zero.mpr
    intro hMem
    exact absurd (hDigit part '.' hMem) (by decide)
  have hWhole :
      ∀ {part : List Char},
        part.takeWhile Char.isDigit ≠ [] →
          ∃ c ∈ part.takeWhile Char.isDigit, c.isDigit = true := by
    intro part hPart
    rcases List.exists_mem_of_ne_nil _ hPart with ⟨c, hc⟩
    exact ⟨c, hc, hDigit part c hc⟩
  refine ⟨sign, text, rfl, hSign, ?_⟩
  unfold takeNumeral at hTake
  split at hTake
  · next fraction hFraction =>
      rw [← hTake]
      refine ⟨?_, ?_, ?_⟩
      · intro c hc
        rcases List.mem_append.mp hc with hc | hc
        · exact .inl (hDigit _ c hc)
        · rcases List.mem_cons.mp hc with rfl | hc
          · exact .inr rfl
          · exact .inl (hDigit _ c hc)
      · simp [hCount]
      · by_cases hNil : text.takeWhile Char.isDigit = []
        · by_cases hNil' : fraction.takeWhile Char.isDigit = []
          · rw [hNil, hNil'] at hTake
            exact absurd hTake.symm hPeriod
          · rcases hWhole hNil' with ⟨c, hc, hIs⟩
            exact ⟨c, by simp [hc], hIs⟩
        · rcases hWhole hNil with ⟨c, hc, hIs⟩
          exact ⟨c, by simp [hc], hIs⟩
  · rw [← hTake]
    refine ⟨fun c hc => .inl (hDigit _ c hc), by simp [hCount], ?_⟩
    apply hWhole
    intro hNil
    rw [show text = [] from hTake.symm.trans hNil] at hSome
    cases hSome

theorem isNumeralText_of_isNumeral
    {text : List Char}
    (h : isNumeral text = true) :
    IsNumeralText text := by
  unfold isNumeral at h
  split at h
  · exact isNumeralText_of_isUnsignedNumeral (.inr rfl) h
  · exact isNumeralText_of_isUnsignedNumeral (.inl rfl) h

namespace Cursor

/- In a run of name parts only blanks are skipped. -/
theorem Faces.skipTrivia_parts
    {text : List Char}
    {c : Cursor}
    (h : c.Faces text)
    (hText : ∀ d ∈ text, isNamePart d = true) :
    c.skipTrivia.Faces (text.dropWhile isBlank) ∧
      c.skipTrivia.AtToken := by
  induction text generalizing c with
  | nil =>
      rw [h.atToken_nil.skipTrivia]
      exact ⟨h, h.atToken_nil⟩
  | cons d text ih =>
      by_cases hBlank : isBlank d = true
      · rw [skipTrivia_of_blank h hBlank,
          List.dropWhile_cons_of_pos hBlank]
        exact ih h.advance fun e he =>
          hText e (List.mem_cons_of_mem _ he)
      · have hToken : c.AtToken := by
          apply atToken_of_isNamePart
          · rw [h.current_cons]
            exact hText d List.mem_cons_self
          · rw [h.current_cons]
            simpa using hBlank
        rw [hToken.skipTrivia, List.dropWhile_cons_of_neg hBlank]
        exact ⟨h, hToken⟩

/- An identifier starts with the character that it is read at. -/
theorem Faces.head_of_readToken
    {c : Cursor}
    {d : Char}
    {text : List Char}
    {name : String}
    (h : c.Faces (d :: text))
    (hPart : isNamePart d = true)
    (hRead : c.readToken.1 = .identifier name) :
    name.toList.head? = some d := by
  have hCurrent := h.current_cons
  have hAhead := h.ahead_cons
  have hOther := ne_of_isNamePart hPart
  have hEnd : c.atEnd = false :=
    atEnd_eq_false_of_ne (by rw [hCurrent]; exact hOther.2.2.2)
  unfold Cursor.readToken at hRead
  rw [hCurrent, ofChar?_of_isNamePart hPart] at hRead
  simp only [hOther.1, hOther.2.1, hOther.2.2.1, hEnd, if_false,
    Bool.false_eq_true] at hRead
  by_cases hStart : isNameStart d = true
  · rw [if_pos hStart] at hRead
    cases hWord : Keyword.ofName? c.readName.1 with
    | some word =>
        rw [hWord] at hRead
        cases hRead
    | none =>
        rw [hWord] at hRead
        cases hRead
        simp [Cursor.readName, hAhead, hPart]
  · have hDigit : d.isDigit = true := by
      simpa [isNamePart, hStart] using hPart
    rw [if_neg hStart, if_pos (.inl hDigit)] at hRead
    cases hRead
    simp only [Cursor.readNumeral, hAhead, String.toList_ofList]
    unfold takeNumeral
    rw [List.takeWhile_cons_of_pos hDigit]
    split <;> rfl

end Cursor

open Cursor in
/- A bare name that reads back does not start with a blank. -/
theorem isBlank_of_tokens
    {d : Char}
    {rest : List Char}
    {name : String}
    (hName : name.toList = d :: rest)
    (hParts : ∀ e ∈ d :: rest, isNamePart e = true)
    (hTokens :
      (start (d :: rest)).tokens.tokens.map Located.token =
        [.identifier name]) :
    isBlank d = false := by
  rcases (faces_start (d :: rest)).skipTrivia_parts hParts with
    ⟨hFaces, -⟩
  have hRead :
      (start (d :: rest)).skipTrivia.readToken.1 =
        .identifier name := by
    rw [Cursor.tokens] at hTokens
    split at hTokens
    · simpa using (List.cons.inj hTokens).1
    · cases hTokens
  cases hMore : (d :: rest).dropWhile isBlank with
  | nil =>
      rw [hMore] at hFaces
      have hNone := tokens_of_faces_nil hFaces
      rw [hNone] at hTokens
      cases hTokens
  | cons e more =>
      rw [hMore] at hFaces
      have hMem : e ∈ d :: rest :=
        (List.dropWhile_sublist isBlank).subset (by simp [hMore])
      have hHead := hFaces.head_of_readToken (hParts e hMem) hRead
      rw [hName, List.head?_cons, Option.some.injEq] at hHead
      subst hHead
      cases hBlank : isBlank d with
      | false => rfl
      | true =>
          have hFirst := List.head?_dropWhile_not isBlank (d :: rest)
          rw [hMore] at hFirst
          simp [hBlank] at hFirst

------------------------------------------------------------
-- Identifiers That Read Back
------------------------------------------------------------

theorem isQuotable_of_forall
    {text : List Char}
    (h : ∀ c ∈ text, c ≠ '"' ∧ c ≠ '\\') :
    IsQuotable text := by
  induction text with
  | nil => exact .nil
  | cons c text ih =>
      rcases List.forall_mem_cons.mp h with ⟨hFirst, hRest⟩
      exact .plain c text hFirst.1 hFirst.2 (ih hRest)

theorem escapeQuotes_of_isQuotable
    {text : List Char}
    (h : IsQuotable text) :
    escapeQuotes text = text := by
  induction h with
  | nil => rfl
  | plain c rest hQuote hEscape hRest ih =>
      rw [escapeQuotes, ih]
      all_goals simp_all
  | pair c rest hFeed hReturn hRest ih => rw [escapeQuotes, ih]

/- No part of a name needs an escape. -/
theorem ne_escape_of_isNamePart
    {c : Char}
    (h : isNamePart c = true) :
    c ≠ '"' ∧ c ≠ '\\' := by
  refine ⟨(ne_of_isNamePart h).1, ?_⟩
  rintro rfl
  exact absurd h (by decide)

/- Bare names have letters, digits and signs only. -/
theorem isQuotable_of_isBare
    {name : String}
    (h : isBare name = true) :
    IsQuotable name.toList := by
  apply isQuotable_of_forall
  simp only [isBare, Bool.or_eq_true, Bool.and_eq_true] at h
  rcases h with ⟨hPlain, -⟩ | hNumeral
  · intro c hMem
    apply ne_escape_of_isNamePart
    cases hName : name.toList with
    | nil =>
        rw [hName] at hMem
        cases hMem
    | cons d rest =>
        simp only [hName, isPlainName, Bool.and_eq_true,
          List.all_eq_true] at hPlain
        rw [hName] at hMem
        rcases List.mem_cons.mp hMem with rfl | hMem
        · exact isNamePart_of_isNameStart hPlain.1
        · exact hPlain.2 c hMem
  · rcases isNumeralText_of_isNumeral hNumeral with
      ⟨sign, digits, hText, hSign, hDigits, -⟩
    rw [hText]
    intro c hMem
    rcases List.mem_append.mp hMem with hMem | hMem
    · rcases hSign with rfl | rfl
      · cases hMem
      · rw [List.mem_singleton.mp hMem]
        decide
    · rcases hDigits c hMem with hDigit | rfl
      · exact ne_escape_of_isNamePart (by simp [isNamePart, hDigit])
      · decide

/- The name is written without quotes, and its start is blank. -/
def HidesBlank (name : String) : Prop :=
  isBare name = true ∧
    ∃ c, name.toList.head? = some c ∧ isBlank c = true

theorem ReadsBack.isQuotable
    {name : String}
    (h : ReadsBack name) :
    IsQuotable name.toList := by
  by_cases hBare : isBare name = true
  · exact isQuotable_of_isBare hBare
  · have hTokens := h.tokens_eq
    rw [quoteIdentifier, if_neg hBare, String.toList_ofList] at hTokens
    rcases isReadAs_escapeQuotes name.toList with ⟨content, hRead⟩
    rw [tokens_of_takeQuoted hRead.takes] at hTokens
    have hContent : content = name.toList := by
      rw [← Token.identifier.inj (List.cons.inj hTokens).1,
        String.toList_ofList]
    rcases hRead.same (by rw [hContent]) with ⟨hEq, hQuotable⟩
    rwa [← hEq, hContent] at hQuotable

/- Numerals start with a sign, a digit or a period. -/
theorem isBlank_of_isNumeral
    {text : List Char}
    {c : Char}
    (h : isNumeral text = true)
    (hHead : text.head? = some c) :
    isBlank c = false := by
  rcases isNumeralText_of_isNumeral h with
    ⟨sign, digits, rfl, hSign, hDigits, -⟩
  have hMem := List.mem_of_mem_head? hHead
  rcases List.mem_append.mp hMem with hMem | hMem
  · rcases hSign with rfl | rfl
    · cases hMem
    · rw [List.mem_singleton.mp hMem]
      decide
  · rcases hDigits c hMem with hDigit | rfl
    · exact isBlank_of_isNamePart (by simp [isNamePart, hDigit])
        (toNat_lt_of_isDigit hDigit)
    · decide

theorem ReadsBack.not_hidesBlank
    {name : String}
    (h : ReadsBack name) :
    ¬ HidesBlank name := by
  rintro ⟨hBare, c, hHead, hBlank⟩
  have hTokens := h.tokens_eq
  rw [quoteIdentifier, if_pos hBare] at hTokens
  simp only [isBare, Bool.or_eq_true, Bool.and_eq_true] at hBare
  have hNot : isBlank c = false := by
    rcases hBare with ⟨hPlain, -⟩ | hNumeral
    · cases hName : name.toList with
      | nil => simp [hName] at hHead
      | cons d rest =>
          rw [hName] at hTokens hHead
          cases hHead
          simp only [hName, isPlainName, Bool.and_eq_true,
            List.all_eq_true] at hPlain
          refine isBlank_of_tokens hName ?_ hTokens
          exact List.forall_mem_cons.mpr
            ⟨isNamePart_of_isNameStart hPlain.1, hPlain.2⟩
    · exact isBlank_of_isNumeral hNumeral hHead
  rw [hNot] at hBlank
  cases hBlank

/- A name without escaped line ends may be written anywhere. -/
theorem spells_of_isQuotable
    {name : String}
    (hQuotable : IsQuotable name.toList)
    (hBlank : ¬ HidesBlank name) :
    Spells (quoteIdentifier name).toList (.identifier name) := by
  unfold quoteIdentifier
  by_cases hBare : isBare name = true
  · have hHead :
        ∀ c, name.toList.head? = some c → isBlank c = false := by
      intro c hHead
      cases hIs : isBlank c with
      | false => rfl
      | true => exact absurd ⟨hBare, c, hHead, hIs⟩ hBlank
    rw [if_pos hBare]
    simp only [isBare, Bool.or_eq_true, Bool.and_eq_true] at hBare
    rcases hBare with ⟨hPlain, hWord⟩ | hNumeral
    · cases hName : name.toList with
      | nil => simp [hName, isPlainName] at hPlain
      | cons d rest =>
          simp only [hName, isPlainName, Bool.and_eq_true,
            List.all_eq_true] at hPlain
          rw [hName] at hHead
          have hSpells := Spells.name d rest hPlain.1 (hHead d rfl)
            hPlain.2
            (by
              intro word hText
              have hSome := Keyword.ofName?_eq_some hText
              rw [← hName, String.ofList_toList] at hSome
              rw [hSome] at hWord
              cases hWord)
          rw [← hName, String.ofList_toList] at hSpells
          rwa [← hName]
    · have hSpells :=
        Spells.numeral _ (isNumeralText_of_isNumeral hNumeral)
      rwa [String.ofList_toList] at hSpells
  · rw [if_neg hBare, String.toList_ofList,
      escapeQuotes_of_isQuotable hQuotable]
    have hSpells := Spells.quoted _ hQuotable
    rwa [String.ofList_toList] at hSpells

/- What reads back on its own may be written anywhere. -/
theorem ReadsBack.spells
    {name : String}
    (h : ReadsBack name) :
    Spells (quoteIdentifier name).toList (.identifier name) :=
  spells_of_isQuotable h.isQuotable h.not_hidesBlank

/- A spelling on its own is the one token of its text. -/
theorem Spells.tokens_eq
    {word : List Char}
    {token : Token}
    (h : Spells word token) :
    (TokenStream.ofText word).toList.map Located.token =
      [token, .endOfFile] := by
  have hLayout :
      IsLayout false [token] ([] ++ (word ++ [])) :=
    .token false [] word [] token [] (.nil false) h (by simp [IsApart])
      (.finish false [] (.nil false))
  rw [List.nil_append, List.append_nil] at hLayout
  have hTokens :=
    hLayout.tokens_eq (Cursor.faces_start word) (by simp)
  simp [TokenStream.toList, TokenStream.ofText, hTokens]

/- Reading back fails for two kinds of names only. -/
theorem readsBack_iff
    {name : String} :
    ReadsBack name ↔
      IsQuotable name.toList ∧ ¬ HidesBlank name := by
  constructor
  · exact fun h => ⟨h.isQuotable, h.not_hidesBlank⟩
  · rintro ⟨hQuotable, hBlank⟩
    exact (spells_of_isQuotable hQuotable hBlank).tokens_eq

end DotLang
