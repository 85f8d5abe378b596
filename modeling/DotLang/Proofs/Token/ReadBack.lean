import DotLang.Proofs.Token.Markup
import DotLang.Proofs.Token.Quoting

/-
  This file proves which tokens of a text read back from how
  they are written.

  The lexer keeps the escapes of a string, so that what it finds
  has no bare quotes and no backslash without a partner.  Such a
  text reads back unless it got a line end behind an escape, or
  is written bare with a blank in front.  Markup always does.

  Key definitions include:
    * `IsEscaped`
    * `EscapesReturn`

  Key theorems include:
    * `isQuotable_iff_of_isEscaped`
    * `Cursor.isEscaped_of_readToken`
    * `readsBack_iff_of_mem_tokens`
-/

------------------------------------------------------------
-- Escaped Texts
------------------------------------------------------------

namespace DotLang

/-
  Characters other than quotes and backslashes, and pairs of a
  backslash and a character.  No pair escapes a line feed.
-/
inductive IsEscaped : List Char → Prop where
| nil : IsEscaped []
| plain
    (c : Char)
    (rest : List Char)
    (hQuote : c ≠ '"')
    (hEscape : c ≠ '\\')
    (hRest : IsEscaped rest) :
    IsEscaped (c :: rest)
| pair
    (c : Char)
    (rest : List Char)
    (hFeed : c ≠ '\n')
    (hRest : IsEscaped rest) :
    IsEscaped ('\\' :: c :: rest)

/- An escaped carriage return with a line feed behind it. -/
def EscapesReturn (text : List Char) : Prop :=
  ∃ before after,
    IsEscaped before ∧
      text = before ++ '\\' :: '\r' :: '\n' :: after

theorem IsQuotable.isEscaped
    {text : List Char}
    (h : IsQuotable text) :
    IsEscaped text := by
  induction h with
  | nil => exact .nil
  | plain c rest hQuote hEscape hRest ih =>
      exact .plain c rest hQuote hEscape ih
  | pair c rest hFeed hReturn hRest ih => exact .pair c rest hFeed ih

/- Strings that are joined are escaped if each of them is. -/
theorem IsEscaped.append
    {text more : List Char}
    (h : IsEscaped text)
    (hMore : IsEscaped more) :
    IsEscaped (text ++ more) := by
  induction h with
  | nil => exact hMore
  | plain c rest hQuote hEscape hRest ih =>
      exact .plain c _ hQuote hEscape ih
  | pair c rest hFeed hRest ih => exact .pair c _ hFeed ih

theorem IsQuotable.not_escapesReturn
    {text : List Char}
    (h : IsQuotable text) :
    ¬ EscapesReturn text := by
  rintro ⟨before, after, hBefore, rfl⟩
  induction hBefore with
  | nil =>
      cases h with
      | plain _ _ hQuote hEscape hRest => exact hEscape rfl
      | pair _ _ hFeed hReturn hRest => exact hReturn rfl rfl
  | plain c rest hQuote hEscape hRest ih =>
      rw [List.cons_append] at h
      generalize rest ++ _ = more at h ih
      cases h with
      | plain _ _ _ _ hMore => exact ih hMore
      | pair _ _ _ _ _ => exact hEscape rfl
  | pair c rest hFeed hRest ih =>
      rw [List.cons_append, List.cons_append] at h
      cases h with
      | plain _ _ _ hEscape _ => exact hEscape rfl
      | pair _ _ _ _ hMore => exact ih hMore

/- Nothing but an escaped line end is left to go wrong. -/
theorem isQuotable_iff_of_isEscaped
    {text : List Char}
    (h : IsEscaped text) :
    IsQuotable text ↔ ¬ EscapesReturn text := by
  constructor
  · exact IsQuotable.not_escapesReturn
  intro hNot
  induction h with
  | nil => exact .nil
  | plain c rest hQuote hEscape hRest ih =>
      refine .plain c rest hQuote hEscape (ih ?_)
      rintro ⟨before, after, hBefore, rfl⟩
      exact hNot ⟨c :: before, after,
        .plain c before hQuote hEscape hBefore, rfl⟩
  | pair c rest hFeed hRest ih =>
      refine .pair c rest hFeed ?_ (ih ?_)
      · rintro rfl hHead
        rcases List.head?_eq_some_iff.mp hHead with ⟨after, rfl⟩
        exact hNot ⟨[], after, .nil, rfl⟩
      · rintro ⟨before, after, hBefore, rfl⟩
        exact hNot ⟨'\\' :: c :: before, after,
          .pair c before hFeed hBefore, rfl⟩

------------------------------------------------------------
-- Texts of Tokens
------------------------------------------------------------

/- Taking a string keeps its escapes, but for line ends. -/
theorem isEscaped_of_takeQuoted
    (text : List Char) :
    ∀ found : List Char × Nat,
      takeQuoted text = some found → IsEscaped found.1 := by
  fun_induction takeQuoted text with
  | case1 => simp
  | case2 rest =>
      intro found hFound
      cases hFound
      exact .nil
  | case3 rest ih =>
      intro found hFound
      rcases Option.map_eq_some_iff.mp hFound with ⟨inner, hInner, rfl⟩
      exact ih inner hInner
  | case4 rest ih =>
      intro found hFound
      rcases Option.map_eq_some_iff.mp hFound with ⟨inner, hInner, rfl⟩
      exact ih inner hInner
  | case5 c rest hFeed hReturn ih =>
      intro found hFound
      rcases Option.map_eq_some_iff.mp hFound with ⟨inner, hInner, rfl⟩
      exact .pair c _ hFeed (ih inner hInner)
  | case6 c rest hQuote hFeed hReturn hEscape ih =>
      intro found hFound
      rcases Option.map_eq_some_iff.mp hFound with ⟨inner, hInner, rfl⟩
      refine .plain c _ hQuote ?_ (ih inner hInner)
      intro hBackslash
      cases rest with
      | nil => cases hInner
      | cons d rest => exact hEscape d rest hBackslash rfl

theorem isEscaped_of_forall
    {text : List Char}
    (h : ∀ c ∈ text, c ≠ '"' ∧ c ≠ '\\') :
    IsEscaped text :=
  (isQuotable_of_forall h).isEscaped

theorem ne_of_mem_takeNumeral
    (text : List Char) :
    ∀ c ∈ takeNumeral text, c ≠ '"' ∧ c ≠ '\\' := by
  have hDigits :
      ∀ part : List Char,
        ∀ c ∈ part.takeWhile Char.isDigit, c ≠ '"' ∧ c ≠ '\\' := by
    intro part c hMem
    have hDigit := List.all_eq_true.mp List.all_takeWhile c hMem
    constructor
    all_goals
      rintro rfl
      exact absurd hDigit (by decide)
  unfold takeNumeral
  intro c hMem
  split at hMem
  · rcases List.mem_append.mp hMem with hMem | hMem
    · exact hDigits _ c hMem
    · rcases List.mem_cons.mp hMem with rfl | hMem
      · decide
      · exact hDigits _ c hMem
  · exact hDigits _ c hMem

namespace Cursor

theorem isEscaped_of_readString
    {c after : Cursor}
    {text : String}
    (h : c.readString = (some text, after)) :
    IsEscaped text.toList := by
  cases hTake : takeQuoted c.advance.ahead with
  | none =>
      simp only [readString, hTake] at h
      cases h
  | some found =>
      simp only [readString, hTake] at h
      cases h
      rw [String.toList_ofList]
      exact isEscaped_of_takeQuoted _ found hTake

/- Joining strings goes on with escaped texts. -/
theorem isEscaped_of_readJoined
    {text name : String}
    {c : Cursor}
    (hText : IsEscaped text.toList)
    (h : (readJoined text c).1 = .identifier name) :
    IsEscaped name.toList := by
  fun_induction readJoined text c with
  | case1 text c hJoined =>
      cases h
      exact hText
  | case2 text c next hJoined after hRead => cases h
  | case3 text c next hJoined more after hRead ih =>
      refine ih ?_ h
      rw [String.toList_append]
      exact hText.append (isEscaped_of_readString hRead)

theorem isEscaped_of_readStrings
    {c : Cursor}
    {name : String}
    (h : c.readStrings.1 = .identifier name) :
    IsEscaped name.toList := by
  unfold readStrings at h
  split at h
  · cases h
  · next text after hRead =>
      exact isEscaped_of_readJoined (isEscaped_of_readString hRead) h

theorem readHtml_ne_identifier
    (c : Cursor)
    (name : String) :
    c.readHtml.1 ≠ .identifier name := by
  unfold readHtml
  dsimp only
  split <;> simp

theorem isEscaped_of_readAfterMinus
    {c : Cursor}
    {name : String}
    (h : c.readAfterMinus.1 = .identifier name) :
    IsEscaped name.toList := by
  unfold readAfterMinus at h
  split at h
  · cases h
  · split at h
    · cases h
    · split at h
      · cases h
        rw [String.toList_append]
        refine .plain '-' _ (by decide) (by decide) ?_
        apply isEscaped_of_forall
        simpa [readNumeral] using ne_of_mem_takeNumeral c.ahead
      · cases h

/- Every identifier that is read is escaped. -/
theorem isEscaped_of_readToken
    {c : Cursor}
    {name : String}
    (h : c.readToken.1 = .identifier name) :
    IsEscaped name.toList := by
  have hReads := c.readsToken
  generalize c.readToken = read at hReads h
  cases hReads with
  | quoted => exact isEscaped_of_readStrings h
  | html => exact absurd h (readHtml_ne_identifier c name)
  | minus => exact isEscaped_of_readAfterMinus h
  | name =>
      cases h
      apply isEscaped_of_forall
      intro d hMem
      rw [readName, String.toList_ofList] at hMem
      exact ne_escape_of_isNamePart
        (List.all_eq_true.mp List.all_takeWhile d hMem)
  | numeral =>
      cases h
      apply isEscaped_of_forall
      simpa [readNumeral] using ne_of_mem_takeNumeral c.ahead
  | symbol mark => cases h
  | endOfFile hEnd => cases h
  | keyword word => cases h
  | stray => cases h

theorem isEscaped_of_mem_tokens
    (c : Cursor) :
    ∀ t ∈ c.tokens.tokens,
      ∀ name, t.token = .identifier name → IsEscaped name.toList := by
  intro t hMem name hName
  rcases c.exists_readToken_of_mem_tokens t hMem with ⟨-, d, hRead⟩
  exact isEscaped_of_readToken (hRead.trans hName)

end Cursor

------------------------------------------------------------
-- Tokens That Read Back
------------------------------------------------------------

/-
  An identifier of a text reads back exactly if it does not end
  a line behind a backslash and is not written bare with a blank
  in front.  All markup of a text reads back.
-/
theorem readsBack_iff_of_mem_tokens
    {text : List Char}
    {t : Located}
    (hMem : t ∈ (TokenStream.ofText text).tokens) :
    (∀ name,
        t.token = .identifier name →
          (ReadsBack name ↔
            ¬ EscapesReturn name.toList ∧ ¬ HidesBlank name)) ∧
      ∀ markup,
        t.token = .html markup →
          (TokenStream.ofText
            ('<' :: markup.toList ++ ['>'])).toList.map
              Located.token =
            [.html markup, .endOfFile] := by
  constructor
  · intro name hName
    have hEscaped :=
      Cursor.isEscaped_of_mem_tokens _ t hMem name hName
    rw [readsBack_iff, isQuotable_iff_of_isEscaped hEscaped]
  · intro markup hHtml
    have hMarkup :=
      Cursor.isMarkup_of_mem_tokens _ t hMem markup hHtml
    have hSpells := Spells.html markup.toList hMarkup
    rw [String.ofList_toList] at hSpells
    exact hSpells.tokens_eq

/- A string in two parts, and the markup behind it, read back. -/
theorem readsBack_of_joined_string :
    let text :=
      ['"', 'a', ' ', '"', '+', '"', '\\', '"', '"', '<', 'i', '>']
    (∃ t ∈ (TokenStream.ofText text).tokens,
        t.token = .identifier "a \\\"") ∧
      (∃ t ∈ (TokenStream.ofText text).tokens,
        t.token = .html "i") ∧
      ReadsBack "a \\\"" ∧
      (TokenStream.ofText ['<', 'i', '>']).toList.map Located.token =
        [.html "i", .endOfFile] := by
  intro text
  have hName :
      ∃ t ∈ (TokenStream.ofText text).tokens,
        t.token = .identifier "a \\\"" := by
    decide +kernel
  have hHtml :
      ∃ t ∈ (TokenStream.ofText text).tokens,
        t.token = .html "i" := by
    decide +kernel
  refine ⟨hName, hHtml, ?_, ?_⟩
  · rcases hName with ⟨t, hMem, hToken⟩
    refine ((readsBack_iff_of_mem_tokens hMem).1 _ hToken).mpr ?_
    have hQuotable : IsQuotable ['a', ' ', '\\', '"'] := by
      refine .plain 'a' _ (by decide) (by decide) ?_
      refine .plain ' ' _ (by decide) (by decide) ?_
      exact .pair '"' [] (by decide) (by decide) .nil
    exact ⟨hQuotable.not_escapesReturn,
      fun hHides => absurd hHides.1 (by decide)⟩
  · rcases hHtml with ⟨t, hMem, hToken⟩
    exact (readsBack_iff_of_mem_tokens hMem).2 _ hToken

/- A blank in front that is no blank of ASCII gets lost. -/
theorem not_readsBack_of_blank :
    let text := ['"', '\u00a0', 'b', '"']
    (∃ t ∈ (TokenStream.ofText text).tokens,
        t.token = .identifier "\u00a0b") ∧
      (TokenStream.ofText
          (quoteIdentifier "\u00a0b").toList).toList.map
          Located.token =
        [.identifier "b", .endOfFile] ∧
      ¬ ReadsBack "\u00a0b" := by
  unfold ReadsBack
  decide +kernel

end DotLang
