import DotLang.Proofs.Token.Spelling
import DotLang.Token.Stream
import Mathlib.Data.List.Infix

/-
  This file proves that the lexer undoes every way to lay out
  tokens as a text.

  Key definitions include:
    * `IsApart`
    * `IsLayout`
    * `IsSpacedLayout`

  Key theorems include:
    * `IsLayout.tokens_eq`
    * `tokens_of_isSpacedLayout`
-/

------------------------------------------------------------
-- Layouts
------------------------------------------------------------

namespace DotLang

/- The text does not go on with a name or a numeral before it. -/
def IsApart (text : List Char) : Prop :=
  ∀ c, text.head? = some c → isNamePart c = false ∧ c ≠ '.'

/-
  The text lays out the tokens: trivia, which may be missing,
  stand around the spellings, and no spelling but a symbol may
  run into the text behind it.  The flag tells whether the text
  starts in the first column.
-/
inductive IsLayout : Bool → List Token → List Char → Prop where
| finish
    (fresh : Bool)
    (gap : List Char)
    (hGap : IsTrivia fresh gap) :
    IsLayout fresh [] gap
| token
    (fresh : Bool)
    (gap word rest : List Char)
    (token : Token)
    (tokens : List Token)
    (hGap : IsTrivia fresh gap)
    (hWord : Spells word token)
    (hApart : IsApart rest)
    (hRest : IsLayout false tokens rest) :
    IsLayout fresh (token :: tokens) (gap ++ (word ++ rest))
| symbol
    (fresh : Bool)
    (gap rest : List Char)
    (mark : Symbol)
    (tokens : List Token)
    (hGap : IsTrivia fresh gap)
    (hRest : IsLayout false tokens rest) :
    IsLayout fresh (.symbol mark :: tokens)
      (gap ++ (mark.spelling.toList ++ rest))

/-
  The text lays out the tokens with trivia in front of each of
  them and behind the last one.
-/
inductive IsSpacedLayout :
    Bool → List Token → List Char → Prop where
| finish
    (fresh : Bool)
    (gap : List Char)
    (hGap : IsTrivia fresh gap)
    (hSome : gap ≠ []) :
    IsSpacedLayout fresh [] gap
| token
    (fresh : Bool)
    (gap word rest : List Char)
    (token : Token)
    (tokens : List Token)
    (hGap : IsTrivia fresh gap)
    (hSome : gap ≠ [])
    (hWord : Spells word token)
    (hRest : IsSpacedLayout false tokens rest) :
    IsSpacedLayout fresh (token :: tokens) (gap ++ (word ++ rest))

------------------------------------------------------------
-- First Characters
------------------------------------------------------------

/- Blanks of ASCII do not belong to names. -/
theorem isNamePart_of_isAsciiBlank
    {c : Char}
    (h : isAsciiBlank c = true) :
    isNamePart c = false ∧ c ≠ '.' := by
  have hAll :
      ∀ n : Fin 128,
        isAsciiBlank (Char.ofNat n) = true →
          isNamePart (Char.ofNat n) = false ∧
            Char.ofNat n ≠ '.' := by
    decide
  have hLt : c.toNat < 128 := by
    simp only [isAsciiBlank, Bool.and_eq_true] at h
    simpa using h.2
  have hChar := hAll ⟨c.toNat, hLt⟩
  simp only [Char.ofNat_toNat] at hChar
  exact hChar h

theorem isBlank_of_isNamePart
    {c : Char}
    (hPart : isNamePart c = true)
    (hLt : c.toNat < 128) :
    isBlank c = false := by
  cases hBlank : isBlank c with
  | false => rfl
  | true =>
      have hAscii : isAsciiBlank c = true := by
        simp [isAsciiBlank, hBlank, hLt]
      rw [(isNamePart_of_isAsciiBlank hAscii).1] at hPart
      cases hPart

theorem toNat_lt_of_isAlpha
    {c : Char}
    (h : c.isAlpha = true) :
    c.toNat < 128 := by
  rw [isAlpha_iff, isUpper_iff_toNat, isLower_iff_toNat] at h
  omega

theorem toNat_lt_of_isDigit
    {c : Char}
    (h : c.isDigit = true) :
    c.toNat < 128 := by
  have hNine : ('9').toNat = 57 := rfl
  rw [Char.isDigit_iff_toNat] at h
  omega

/- Trivia behind a token keep it apart from what follows. -/
theorem IsTrivia.isApart
    {gap : List Char}
    (h : IsTrivia false gap)
    (hSome : gap ≠ [])
    (rest : List Char) :
    IsApart (gap ++ rest) := by
  intro c hc
  cases h with
  | nil => exact absurd rfl hSome
  | blank _ d gap hBlank hGap =>
      cases hc
      exact isNamePart_of_isAsciiBlank hBlank
  | line _ body gap hBody hGap =>
      cases hc
      decide
  | block _ body gap hBody hGap =>
      cases hc
      decide

open Cursor in
/- A part of a name is no trivia and no joined string. -/
theorem atToken_of_isNamePart
    {c : Cursor}
    (hPart : isNamePart c.current = true)
    (hBlank : isBlank c.current = false) :
    c.AtToken := by
  refine ⟨hBlank, ?_, ?_, ?_⟩
  all_goals
    intro hEq
    rw [hEq] at hPart
    exact absurd hPart (by decide)

/- Neither trivia nor a joined string starts with a token. -/
theorem Spells.atToken
    {text rest : List Char}
    {token : Token}
    {c : Cursor}
    (h : Spells text token)
    (hFaces : c.Faces (text ++ rest)) :
    c.AtToken := by
  cases h with
  | symbol mark =>
      cases mark
      all_goals
        have hCurrent := hFaces.current_cons
        constructor <;> rw [hCurrent] <;> decide
  | keyword word text hText =>
      cases text with
      | nil => cases word <;> exact absurd hText (by decide)
      | cons d text =>
          have hCurrent := hFaces.current_cons
          have hAlpha :=
            Keyword.isAlpha_of_spells hText d (by simp)
          have hPart := isNamePart_of_isNameStart
            (isNameStart_of_isAlpha hAlpha)
          apply atToken_of_isNamePart
          · rwa [hCurrent]
          · rw [hCurrent]
            exact isBlank_of_isNamePart hPart
              (toNat_lt_of_isAlpha hAlpha)
  | html text hText =>
      have hCurrent := hFaces.current_cons
      constructor <;> rw [hCurrent] <;> decide
  | name d text hStart hBlank hText hWord =>
      have hCurrent := hFaces.current_cons
      apply atToken_of_isNamePart
      · rw [hCurrent]
        exact isNamePart_of_isNameStart hStart
      · rwa [hCurrent]
  | numeral text hText =>
      rcases hText with
        ⟨sign, digits, rfl, hSign, hDigits, _, some, hIn, _⟩
      rcases hSign with rfl | rfl
      · cases digits with
        | nil => cases hIn
        | cons d digits =>
            have hCurrent := hFaces.current_cons
            rcases hDigits d (by simp) with hDigit | rfl
            · have hPart : isNamePart d = true := by
                simp [isNamePart, hDigit]
              apply atToken_of_isNamePart
              · rwa [hCurrent]
              · rw [hCurrent]
                exact isBlank_of_isNamePart hPart
                  (toNat_lt_of_isDigit hDigit)
            · constructor <;> rw [hCurrent] <;> decide
      · have hCurrent := hFaces.current_cons
        constructor <;> rw [hCurrent] <;> decide
  | quoted text hText =>
      have hCurrent := hFaces.current_cons
      constructor <;> rw [hCurrent] <;> decide

theorem Spells.ne_endOfFile
    {word : List Char}
    {token : Token}
    (h : Spells word token) :
    token ≠ .endOfFile := by
  cases h <;> simp

------------------------------------------------------------
-- Lexing Layouts
------------------------------------------------------------

namespace Cursor

/- A token and those behind it. -/
theorem tokens_of_readToken
    {c after : Cursor}
    {token : Token}
    (hRead : c.skipTrivia.readToken = (token, after))
    (hToken : token ≠ .endOfFile) :
    c.tokens.tokens =
      ⟨token, c.skipTrivia.location⟩ :: after.tokens.tokens := by
  rw [tokens]
  simp [hRead, hToken]

/- No token is left at the end of a text. -/
theorem tokens_of_faces_nil
    {c : Cursor}
    (h : c.skipTrivia.Faces []) :
    c.tokens.tokens = [] := by
  have hCurrent : c.skipTrivia.current = '\x00' := h.1
  have hRead : c.skipTrivia.readToken.1 = .endOfFile := by
    simp [readToken, hCurrent, Symbol.ofChar?, h.atEnd_nil]
  rw [tokens]
  simp [hRead]

/- Every token of a text is read somewhere, before its end. -/
theorem exists_readToken_of_mem_tokens
    (c : Cursor) :
    ∀ t ∈ c.tokens.tokens,
      t.token ≠ .endOfFile ∧ ∃ d : Cursor, d.readToken.1 = t.token := by
  fun_induction tokens c with
  | case1 c first hToken following ih =>
      intro t hMem
      rcases List.mem_cons.mp hMem with rfl | hMem
      · exact ⟨hToken, first, rfl⟩
      · exact ih t hMem
  | case2 c first hToken =>
      intro t hMem
      cases hMem

/- The end of the file is not among the tokens. -/
theorem token_ne_endOfFile
    (c : Cursor) :
    ∀ t ∈ c.tokens.tokens, t.token ≠ .endOfFile :=
  fun t hMem => (c.exists_readToken_of_mem_tokens t hMem).1

end Cursor

open Cursor

namespace IsLayout

/- Behind the trivia in front of a layout is a token. -/
theorem atToken_skipTrivia
    {fresh : Bool}
    {tokens : List Token}
    {text : List Char}
    {c : Cursor}
    (h : IsLayout fresh tokens text)
    (hFaces : c.Faces text)
    (hFresh : fresh = true → c.column = 1) :
    c.skipTrivia.AtToken := by
  cases h with
  | finish _ gap hGap =>
      have hFaces' : c.Faces (text ++ []) := by
        simpa using hFaces
      have hEnd := hFaces'.advanceBy_length
      rw [skipTrivia_eq_advanceBy hGap hFaces' hFresh
        hEnd.atToken_nil]
      exact hEnd.atToken_nil
  | token _ gap word rest token tokens hGap hWord hApart hRest =>
      have hToken := hWord.atToken hFaces.advanceBy_length
      rw [skipTrivia_eq_advanceBy hGap hFaces hFresh hToken]
      exact hToken
  | symbol _ gap rest mark tokens hGap hRest =>
      have hToken :=
        (Spells.symbol mark).atToken hFaces.advanceBy_length
      rw [skipTrivia_eq_advanceBy hGap hFaces hFresh hToken]
      exact hToken

/- A layout separates what stands before it. -/
theorem separates
    {tokens : List Token}
    {text : List Char}
    {c : Cursor}
    (h : IsLayout false tokens text)
    (hApart : IsApart text)
    (hFaces : c.Faces text) :
    c.Separates := by
  have hHead : isNamePart c.current = false ∧ c.current ≠ '.' := by
    cases text with
    | nil =>
        rw [show c.current = '\x00' from hFaces.1]
        decide
    | cons d text =>
        rw [hFaces.current_cons]
        exact hApart d rfl
  have hToken := h.atToken_skipTrivia hFaces (by simp)
  exact ⟨hHead.1, hHead.2, joined?_eq_none hToken.notPlus⟩

/- Lexing a layout gives back its tokens. -/
theorem tokens_eq
    {fresh : Bool}
    {tokens : List Token}
    {text : List Char}
    {c : Cursor}
    (h : IsLayout fresh tokens text)
    (hFaces : c.Faces text)
    (hFresh : fresh = true → c.column = 1) :
    c.tokens.tokens.map Located.token = tokens := by
  induction h generalizing c with
  | finish fresh gap hGap =>
      have hFaces' : c.Faces (gap ++ []) := by
        simpa using hFaces
      have hEnd := hFaces'.advanceBy_length
      have hSkip := skipTrivia_eq_advanceBy hGap hFaces' hFresh
        hEnd.atToken_nil
      rw [tokens_of_faces_nil (by rwa [hSkip])]
      rfl
  | token fresh gap word rest token tokens hGap hWord hApart hRest
      ih =>
      have hWordFaces := hFaces.advanceBy_length
      have hRestFaces := hWordFaces.advanceBy_length
      have hSkip := skipTrivia_eq_advanceBy hGap hFaces hFresh
        (hWord.atToken hWordFaces)
      have hRead := hWord.readToken hWordFaces
        (hRest.separates hApart hRestFaces)
      rw [← hSkip] at hRead
      rw [tokens_of_readToken hRead hWord.ne_endOfFile,
        List.map_cons, hSkip, ih hRestFaces (by simp)]
  | symbol fresh gap rest mark tokens hGap hRest ih =>
      have hWordFaces := hFaces.advanceBy_length
      have hRestFaces := hWordFaces.advanceBy_length
      have hSkip := skipTrivia_eq_advanceBy hGap hFaces hFresh
        ((Spells.symbol mark).atToken hWordFaces)
      have hRead := hWordFaces.readToken_symbol
      rw [← hSkip] at hRead
      rw [tokens_of_readToken hRead (by simp), List.map_cons, hSkip,
        ih hRestFaces (by simp)]

end IsLayout

/- Trivia around every token keep the tokens apart. -/
theorem IsSpacedLayout.isLayout
    {fresh : Bool}
    {tokens : List Token}
    {text : List Char}
    (h : IsSpacedLayout fresh tokens text) :
    IsLayout fresh tokens text := by
  induction h with
  | finish fresh gap hGap hSome => exact .finish fresh gap hGap
  | token fresh gap word rest token tokens hGap hSome hWord hRest
      ih =>
      refine .token fresh gap word rest token tokens hGap hWord
        ?_ ih
      cases hRest with
      | finish _ gap hGap hSome =>
          simpa using hGap.isApart hSome []
      | token _ gap word rest token tokens hGap hSome hWord hRest =>
          exact hGap.isApart hSome _

/-
  Whatever the layout, lexing a text gives back the tokens that
  are laid out, and then the end of the file.
-/
theorem tokens_of_isSpacedLayout
    {tokens : List Token}
    {text : List Char}
    (h : IsSpacedLayout true tokens text) :
    (TokenStream.ofText text).toList.map Located.token =
      tokens ++ [.endOfFile] := by
  have hSome : text ≠ [] := by
    cases h with
    | finish _ gap hGap hSome => exact hSome
    | token _ gap word rest token tokens hGap hSome hWord hRest =>
        simp [hSome]
  have hTokens := h.isLayout.tokens_eq (faces_start text)
    (fun _ => column_start hSome)
  simp [TokenStream.toList, TokenStream.ofText, hTokens]

/-
  A plus sign in a comment behind a string joins nothing, and a
  number sign in the first column hides a quote.
-/
theorem tokens_of_commented_string :
    (TokenStream.ofText
      (['#', '"', '\n'] ++ (['S', 'T', 'r', 'i', 'c', 't'] ++
        ([' '] ++ (['"', '\\', '"', '"'] ++
          (['/', '*', '+', '"', '*', '/'] ++ (['-', '.', '5'] ++
            (['/', '/', '>', '\n'] ++
              (['<', '<', '>', '"', '>'] ++ ['\t']))))))))).toList.map
        Located.token =
      [.keyword .strict, .identifier "\\\"", .identifier "-.5",
        .html "<>\""] ++ [.endOfFile] := by
  apply tokens_of_isSpacedLayout
  refine .token true _ _ _ _ _
    (.number ['"'] [] (by decide) (.nil true)) (by decide)
    (.keyword .strict _ (by decide)) ?_
  refine .token false _ _ _ _ _
    (.blank false ' ' [] (by decide) (.nil _)) (by decide)
    (.quoted ['\\', '"']
      (.pair '"' [] (by decide) (by decide) .nil)) ?_
  refine .token false _ _ _ _ _
    (.block false ['+', '"'] [] (by decide) (.nil false))
    (by decide)
    (.numeral ['-', '.', '5'] ⟨['-'], ['.', '5'], rfl, by simp,
      by simp, by decide, '5', by simp, rfl⟩) ?_
  refine .token false _ _ _ _ _
    (.line false ['>'] [] (by decide) (.nil true)) (by decide)
    (.html ['<', '>', '"'] ⟨?_, by decide⟩)
    (.finish false ['\t']
      (.blank false '\t' [] (by decide) (.nil _)) (by decide))
  intro part hPart
  have hIn := (List.mem_inits part ['<', '>', '"']).mpr hPart
  simp [List.inits] at hIn
  rcases hIn with rfl | rfl | rfl | rfl <;> decide

end DotLang
