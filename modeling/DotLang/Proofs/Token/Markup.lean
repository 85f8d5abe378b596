import DotLang.Proofs.Token.Layout

/-
  This file proves that all markup that the lexer finds in a
  text is balanced.

  Key theorems include:
    * `takeMarkup_balanced`
    * `Cursor.isMarkup_of_mem_tokens`
-/

------------------------------------------------------------
-- Delimited Markup
------------------------------------------------------------

namespace DotLang

/- Markup closes the brackets that are open, and not before. -/
theorem takeMarkup_balanced
    (depth : Nat)
    (text : List Char) :
    ∀ found : List Char × Nat,
      takeMarkup depth text = some found →
        ClosesAngles depth found.1 := by
  fun_induction takeMarkup depth text with
  | case1 depth => nofun
  | case2 depth rest ih =>
      intro found hFound
      rcases Option.map_eq_some_iff.mp hFound with ⟨inner, hInner, rfl⟩
      exact ClosesAngles.open_iff.mpr (ih inner hInner)
  | case3 rest =>
      intro found hFound
      cases hFound
      exact ClosesAngles.nil_iff.mpr rfl
  | case4 depth rest ih =>
      intro found hFound
      rcases Option.map_eq_some_iff.mp hFound with ⟨inner, hInner, rfl⟩
      exact ClosesAngles.close_iff.mpr (ih inner hInner)
  | case5 depth c rest hOpen hClose hDeep ih =>
      intro found hFound
      rcases Option.map_eq_some_iff.mp hFound with ⟨inner, hInner, rfl⟩
      have hNotClose : c ≠ '>' := by
        intro hEq
        cases depth with
        | zero => exact hClose rfl hEq
        | succ depth => exact hDeep depth rfl hEq
      exact (ClosesAngles.other_iff hOpen hNotClose).mpr
        (ih inner hInner)

namespace Cursor

------------------------------------------------------------
-- Markup Tokens
------------------------------------------------------------

/- Joined strings are no markup. -/
theorem readJoined_ne_html
    (text : String)
    (c : Cursor)
    (markup : String) :
    (readJoined text c).1 ≠ .html markup := by
  fun_induction readJoined text c with
  | case1 => simp
  | case2 => simp
  | case3 text c next hJoined more after hRead ih => exact ih

theorem readStrings_ne_html
    (c : Cursor)
    (markup : String) :
    c.readStrings.1 ≠ .html markup := by
  unfold readStrings
  split
  · simp
  · exact readJoined_ne_html _ _ markup

theorem readAfterMinus_ne_html
    (c : Cursor)
    (markup : String) :
    c.readAfterMinus.1 ≠ .html markup := by
  unfold readAfterMinus
  split
  · simp
  · split
    · simp
    · split <;> simp

theorem isMarkup_of_readHtml
    {c : Cursor}
    {markup : String}
    (h : c.readHtml.1 = .html markup) :
    IsMarkup markup.toList := by
  cases hTake : takeMarkup 0 c.advance.ahead with
  | none =>
      simp only [readHtml, hTake] at h
      cases h
  | some found =>
      simp only [readHtml, hTake, Token.html.injEq] at h
      rw [← h, String.toList_ofList]
      exact isMarkup_iff.mpr (takeMarkup_balanced 0 _ found hTake)

theorem isMarkup_of_readToken
    {c : Cursor}
    {markup : String}
    (h : c.readToken.1 = .html markup) :
    IsMarkup markup.toList := by
  have hReads := c.readsToken
  generalize c.readToken = read at hReads h
  cases hReads with
  | quoted => exact absurd h (readStrings_ne_html c markup)
  | html => exact isMarkup_of_readHtml h
  | minus => exact absurd h (readAfterMinus_ne_html _ markup)
  | symbol mark => cases h
  | endOfFile hEnd => cases h
  | keyword word => cases h
  | name => cases h
  | numeral => cases h
  | stray => cases h

/- All markup among the tokens of a text is balanced. -/
theorem isMarkup_of_mem_tokens
    (c : Cursor) :
    ∀ t ∈ c.tokens.tokens,
      ∀ markup, t.token = .html markup → IsMarkup markup.toList := by
  intro t hMem markup hHtml
  rcases c.exists_readToken_of_mem_tokens t hMem with ⟨-, d, hRead⟩
  exact isMarkup_of_readToken (hRead.trans hHtml)

end Cursor

end DotLang
