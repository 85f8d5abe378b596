import DotLang.Proofs.Location
import DotLang.Proofs.Token.Trivia
import DotLang.Token.Stream
import Mathlib.Data.List.GetD

/-
  This file proves that the lexer keeps track of where it is:
  whatever it skips and reads, the line, the column and the
  offset of its cursor are those of a character of the text or
  those behind the text.  Offsets grow from token to token.

  Key definitions include:
    * `Cursor.Reaches`
    * `Cursor.ReadsToken`
    * `Cursor.ofIndex`
    * `Cursor.behind`
    * `Cursor.IsIn`
    * `Location.IsIn`

  Key theorems include:
    * `Cursor.reaches_skipTrivia`
    * `Cursor.reaches_readToken`
    * `Cursor.isIn_start`
    * `Cursor.IsIn.advance`
    * `Cursor.pairwise_offset_tokens`
    * `isIn_of_mem_tokens`
    * `isIn_finish`
-/

------------------------------------------------------------
-- Moves
------------------------------------------------------------

namespace DotLang

namespace Cursor

/- Moves of the first cursor lead to the second one. -/
def Reaches (c d : Cursor) : Prop :=
  ∃ n, d = advanceBy n c

theorem Reaches.refl
    (c : Cursor) :
    c.Reaches c :=
  ⟨0, rfl⟩

theorem Reaches.trans
    {c d e : Cursor}
    (h : c.Reaches d)
    (h' : d.Reaches e) :
    c.Reaches e := by
  rcases h with ⟨m, rfl⟩
  rcases h' with ⟨n, rfl⟩
  exact ⟨m + n, (advanceBy_add m n c).symm⟩

theorem reaches_advanceBy
    (n : Nat)
    (c : Cursor) :
    c.Reaches (advanceBy n c) :=
  ⟨n, rfl⟩

theorem reaches_advance
    (c : Cursor) :
    c.Reaches c.advance :=
  reaches_advanceBy 1 c

------------------------------------------------------------
-- Moves of the Lexer
------------------------------------------------------------

theorem reaches_skipWhile
    (test : Char → Bool)
    (c : Cursor) :
    c.Reaches (c.skipWhile test) :=
  reaches_advanceBy _ c

theorem reaches_skipLine
    (c : Cursor) :
    c.Reaches c.skipLine := by
  have hSkip := reaches_skipWhile (· ≠ '\n') c
  unfold skipLine
  simp only
  split
  · exact hSkip.trans (reaches_advance _)
  · exact hSkip

theorem reaches_skipComment?
    {c next : Cursor}
    (h : c.skipComment? = some next) :
    c.Reaches next := by
  unfold skipComment? at h
  split at h
  · cases h
    exact reaches_skipLine c
  · split at h
    · cases h
      exact reaches_skipLine c
    · split at h
      · cases h
        exact (reaches_advanceBy 2 c).trans (reaches_advanceBy _ _)
      · cases h

theorem reaches_skipTrivia
    (c : Cursor) :
    c.Reaches c.skipTrivia := by
  fun_induction skipTrivia c with
  | case1 c next h ih => exact (reaches_skipComment? h).trans ih
  | case2 c h hBlank ih => exact (reaches_skipWhile _ c).trans ih
  | case3 c h hBlank => exact Reaches.refl c

theorem reaches_readString
    (c : Cursor) :
    c.Reaches c.readString.2 := by
  unfold readString
  simp only
  split <;>
    exact (reaches_advance c).trans (reaches_advanceBy _ _)

theorem reaches_joined?
    {c next : Cursor}
    (h : c.joined? = some next) :
    c.Reaches next := by
  unfold joined? at h
  simp only at h
  split at h
  · split at h
    · cases h
      exact ((reaches_skipTrivia c).trans (reaches_advance _)).trans
        (reaches_skipTrivia _)
    · cases h
  · cases h

theorem reaches_readJoined
    (text : String)
    (c : Cursor) :
    c.Reaches (readJoined text c).2 := by
  fun_induction readJoined text c with
  | case1 text c h => exact Reaches.refl c
  | case2 text c next h after hRead =>
      have hString := reaches_readString next
      rw [hRead] at hString
      exact (reaches_joined? h).trans hString
  | case3 text c next h more after hRead ih =>
      have hString := reaches_readString next
      rw [hRead] at hString
      exact ((reaches_joined? h).trans hString).trans ih

theorem reaches_readStrings
    (c : Cursor) :
    c.Reaches c.readStrings.2 := by
  have hString := reaches_readString c
  unfold readStrings
  split
  · next after hRead =>
      rw [hRead] at hString
      exact hString
  · next text after hRead =>
      rw [hRead] at hString
      exact hString.trans (reaches_readJoined _ _)

theorem reaches_readHtml
    (c : Cursor) :
    c.Reaches c.readHtml.2 := by
  unfold readHtml
  simp only
  split <;>
    exact (reaches_advance c).trans (reaches_advanceBy _ _)

theorem reaches_readAfterMinus
    (c : Cursor) :
    c.Reaches c.readAfterMinus.2 := by
  unfold readAfterMinus
  split
  · exact reaches_advance c
  · split
    · exact reaches_advance c
    · split
      · exact reaches_advanceBy _ c
      · exact Reaches.refl c

------------------------------------------------------------
-- Kinds of Tokens
------------------------------------------------------------

/- How the token at a cursor is read, and where that leads. -/
inductive ReadsToken (c : Cursor) : Token × Cursor → Prop where
| symbol
    (mark : Symbol) :
    ReadsToken c (.symbol mark, c.advance)
| quoted :
    ReadsToken c c.readStrings
| html :
    ReadsToken c c.readHtml
| minus :
    ReadsToken c c.advance.readAfterMinus
| endOfFile
    (hEnd : c.atEnd = true) :
    ReadsToken c (.endOfFile, c)
| keyword
    (word : Keyword) :
    ReadsToken c (.keyword word, c.readName.2)
| name :
    ReadsToken c (.identifier c.readName.1, c.readName.2)
| numeral :
    ReadsToken c (.identifier c.readNumeral.1, c.readNumeral.2)
| stray :
    ReadsToken c
      (.malformed (.strayCharacter c.current), c.advance)

theorem readsToken
    (c : Cursor) :
    c.ReadsToken c.readToken := by
  unfold readToken
  split
  · exact .symbol _
  · split
    · exact .quoted
    · split
      · exact .html
      · split
        · exact .minus
        · split
          · next hEnd => exact .endOfFile hEnd
          · split
            · dsimp only
              split
              · exact .keyword _
              · exact .name
            · split
              · exact .numeral
              · exact .stray

theorem readToken_of_quote
    {c : Cursor}
    (h : c.current = '"') :
    c.readToken = c.readStrings := by
  simp [readToken, h, Symbol.ofChar?]

theorem readToken_of_angle
    {c : Cursor}
    (h : c.current = '<') :
    c.readToken = c.readHtml := by
  simp [readToken, h, Symbol.ofChar?]

theorem readToken_of_minus
    {c : Cursor}
    (h : c.current = '-') :
    c.readToken = c.advance.readAfterMinus := by
  simp [readToken, h, Symbol.ofChar?]

theorem reaches_readToken
    (c : Cursor) :
    c.Reaches c.readToken.2 := by
  have hReads := c.readsToken
  generalize c.readToken = read at hReads ⊢
  cases hReads with
  | symbol mark => exact reaches_advance c
  | quoted => exact reaches_readStrings c
  | html => exact reaches_readHtml c
  | minus =>
      exact (reaches_advance c).trans (reaches_readAfterMinus _)
  | endOfFile hEnd => exact Reaches.refl c
  | keyword word => exact reaches_advanceBy _ c
  | name => exact reaches_advanceBy _ c
  | numeral => exact reaches_advanceBy _ c
  | stray => exact reaches_advance c

------------------------------------------------------------
-- The End of a Text
------------------------------------------------------------

theorem readJoined_ne_endOfFile
    (text : String)
    (c : Cursor) :
    (readJoined text c).1 ≠ .endOfFile := by
  fun_induction readJoined text c with
  | case1 text c h => simp
  | case2 text c next h after hRead => simp
  | case3 text c next h more after hRead ih => exact ih

theorem readStrings_ne_endOfFile
    (c : Cursor) :
    c.readStrings.1 ≠ .endOfFile := by
  unfold readStrings
  split
  · simp
  · exact readJoined_ne_endOfFile _ _

theorem readHtml_ne_endOfFile
    (c : Cursor) :
    c.readHtml.1 ≠ .endOfFile := by
  unfold readHtml
  dsimp only
  split <;> simp

theorem readAfterMinus_ne_endOfFile
    (c : Cursor) :
    c.readAfterMinus.1 ≠ .endOfFile := by
  unfold readAfterMinus
  split_ifs <;> simp

/- At the end there is nothing to read, and no move. -/
theorem readToken_of_atEnd
    {c : Cursor}
    (h : c.atEnd = true) :
    c.readToken = (.endOfFile, c) := by
  have hNull : c.current = '\x00' := by
    simp [atEnd] at h
    exact h.1
  simp [readToken, hNull, Symbol.ofChar?, h]

/- Only the end of a text is read as the end of the file. -/
theorem readToken_eq_endOfFile_iff
    {c : Cursor} :
    c.readToken.1 = .endOfFile ↔ c.atEnd = true := by
  constructor
  · intro hToken
    have hReads := c.readsToken
    generalize c.readToken = read at hReads hToken
    cases hReads with
    | endOfFile hEnd => exact hEnd
    | quoted => exact absurd hToken c.readStrings_ne_endOfFile
    | html => exact absurd hToken c.readHtml_ne_endOfFile
    | minus =>
        exact absurd hToken c.advance.readAfterMinus_ne_endOfFile
    | symbol mark => cases hToken
    | keyword word => cases hToken
    | name => cases hToken
    | numeral => cases hToken
    | stray => cases hToken
  · intro hEnd
    rw [readToken_of_atEnd hEnd]

------------------------------------------------------------
-- Cursors in a Text
------------------------------------------------------------

/- The cursor on the character at an index. -/
def ofIndex (text : List Char) (i : Nat) : Cursor where
  current := text.getD i '\x00'
  rest := text.drop (i + 1)
  line := (Location.ofIndex text i).line
  column := (Location.ofIndex text i).column
  offset := (Location.ofIndex text i).offset

/- The cursor that went past the last character. -/
def behind (text : List Char) : Cursor where
  current := '\x00'
  rest := []
  line := (Location.behind text).line
  column := (Location.behind text).column
  offset := (Location.behind text).offset

/-
  The cursors that a text has.  A null character that ends the
  text is not left behind.
-/
inductive IsIn (text : List Char) : Cursor → Prop where
| ofIndex
    (i : Nat)
    (hIndex : i < text.length) :
    IsIn text (ofIndex text i)
| behind
    (hLast : text.getLast? ≠ some '\x00') :
    IsIn text (behind text)

theorem isIn_start
    (text : List Char) :
    (start text).IsIn text := by
  cases text with
  | nil => exact .behind (by simp)
  | cons c text => exact .ofIndex 0 (Nat.succ_pos _)

/- The line grows behind a line feed, where columns start anew. -/
theorem advance_ofIndex
    {text : List Char}
    {i : Nat}
    (h : i + 1 < text.length) :
    (ofIndex text i).advance = ofIndex text (i + 1) := by
  have hIndex : i < text.length := Nat.lt_of_succ_lt h
  have hCurrent : text.getD i '\x00' = text[i] :=
    List.getD_eq_getElem text _ hIndex
  have hNext : text.getD (i + 1) '\x00' = text[i + 1] :=
    List.getD_eq_getElem text _ h
  simp only [advance, ofIndex, Location.ofIndex, hCurrent, hNext,
    List.drop_eq_getElem_cons h, Location.count_take_succ hIndex,
    Location.lastLine_take_succ hIndex]
  by_cases hFeed : text[i] = '\n' <;> simp [hFeed]

theorem advance_behind
    (text : List Char) :
    (behind text).advance = behind text := rfl

/- Past the last character there is one more place. -/
theorem advance_ofIndex_last
    {text : List Char}
    {i : Nat}
    (h : i + 1 = text.length)
    (hNull : text.getLast? ≠ some '\x00') :
    (ofIndex text i).advance = behind text := by
  have hIndex : i < text.length := by omega
  have hCurrent : text.getD i '\x00' = text[i] :=
    List.getD_eq_getElem text _ hIndex
  have hTake : text.take (i + 1) = text := by
    rw [h, List.take_length]
  have hCount := Location.count_take_succ hIndex
  have hLine := Location.lastLine_take_succ hIndex
  rw [hTake] at hCount hLine
  have hSome : text ≠ [] := by
    rintro rfl
    cases hIndex
  have hOther : text[i] ≠ '\x00' := by
    intro hEq
    refine hNull ?_
    rw [List.getLast?_eq_getElem?, ← h, Nat.add_sub_cancel,
      List.getElem?_eq_getElem hIndex, hEq]
  simp only [advance, ofIndex, behind, Location.ofIndex,
    Location.behind, hCurrent, hCount, hLine, if_neg hSome,
    if_neg hOther, h, List.drop_length]
  by_cases hFeed : text[i] = '\n' <;> simp [hFeed]

/- A null character that ends a text is its end. -/
theorem advance_ofIndex_null
    {text : List Char}
    {i : Nat}
    (h : i + 1 = text.length)
    (hNull : text.getLast? = some '\x00') :
    (ofIndex text i).advance = ofIndex text i := by
  have hIndex : i < text.length := by omega
  have hCurrent : text.getD i '\x00' = '\x00' := by
    rw [List.getLast?_eq_getElem?, ← h, Nat.add_sub_cancel] at hNull
    rw [List.getD_eq_getElem?_getD, hNull]
    rfl
  simp only [advance, ofIndex, hCurrent, h, List.drop_length]
  simp

theorem IsIn.advance
    {text : List Char}
    {c : Cursor}
    (h : c.IsIn text) :
    c.advance.IsIn text := by
  cases h with
  | behind hLast =>
      rw [advance_behind]
      exact .behind hLast
  | ofIndex i hIndex =>
      by_cases hNext : i + 1 < text.length
      · rw [advance_ofIndex hNext]
        exact .ofIndex (i + 1) hNext
      · have hLast : i + 1 = text.length := by omega
        by_cases hNull : text.getLast? = some '\x00'
        · rw [advance_ofIndex_null hLast hNull]
          exact .ofIndex i hIndex
        · rw [advance_ofIndex_last hLast hNull]
          exact .behind hNull

theorem IsIn.of_reaches
    {text : List Char}
    {c d : Cursor}
    (h : c.IsIn text)
    (hReaches : c.Reaches d) :
    d.IsIn text := by
  rcases hReaches with ⟨n, rfl⟩
  induction n generalizing c with
  | zero => exact h
  | succ n ih => exact ih h.advance

------------------------------------------------------------
-- Places of Tokens
------------------------------------------------------------

theorem reaches_of_mem_tokens
    (c : Cursor) :
    ∀ t ∈ c.tokens.tokens,
      ∃ d, c.Reaches d ∧ d.location = t.location := by
  fun_induction tokens c with
  | case1 c first hToken following ih =>
      have hFirst := reaches_skipTrivia c
      intro t hMem
      rcases List.mem_cons.mp hMem with rfl | hMem
      · exact ⟨first, hFirst, rfl⟩
      · rcases ih t hMem with ⟨d, hReaches, hLocation⟩
        have hNext := hFirst.trans (reaches_readToken first)
        exact ⟨d, hNext.trans hReaches, hLocation⟩
  | case2 c first hToken =>
      intro t hMem
      cases hMem

theorem reaches_finish
    (c : Cursor) :
    ∃ d, c.Reaches d ∧ d.location = c.tokens.finish := by
  fun_induction tokens c with
  | case1 c first hToken following ih =>
      rcases ih with ⟨d, hReaches, hLocation⟩
      have hNext :=
        (reaches_skipTrivia c).trans (reaches_readToken first)
      exact ⟨d, hNext.trans hReaches, hLocation⟩
  | case2 c first hToken =>
      exact ⟨first, reaches_skipTrivia c, rfl⟩

------------------------------------------------------------
-- Order of Tokens
------------------------------------------------------------

/- What a move adds to the offset it takes from what is left. -/
theorem offset_add_length_advance
    (c : Cursor) :
    c.advance.offset + c.advance.rest.length =
      c.offset + c.rest.length := by
  cases hRest : c.rest with
  | nil => simp [advance, hRest]
  | cons d rest =>
      simp only [advance, hRest, List.length_cons]
      omega

theorem Reaches.offset_add_length
    {c d : Cursor}
    (h : c.Reaches d) :
    d.offset + d.rest.length = c.offset + c.rest.length := by
  rcases h with ⟨n, rfl⟩
  induction n generalizing c with
  | zero => rfl
  | succ n ih => exact ih.trans c.offset_add_length_advance

theorem remaining_of_token
    {c : Cursor}
    (hToken : c.readToken.1 ≠ .endOfFile) :
    c.remaining = c.rest.length + 1 := by
  have hEnd : c.atEnd ≠ true := fun hEnd =>
    hToken (readToken_eq_endOfFile_iff.mpr hEnd)
  rw [remaining, if_neg hEnd]

/- No token of what remains starts before it. -/
theorem lt_offset_of_mem_tokens
    (c : Cursor) :
    ∀ t ∈ c.tokens.tokens,
      c.offset + c.rest.length <
        t.location.offset + c.remaining := by
  fun_induction tokens c with
  | case1 c first hToken following ih =>
      have hFirst :
          first.offset + first.rest.length =
            c.offset + c.rest.length :=
        (reaches_skipTrivia c).offset_add_length
      have hNext := (reaches_readToken first).offset_add_length
      have hLe : first.remaining ≤ c.remaining :=
        remaining_skipTrivia_le c
      have hLt := remaining_readToken_lt hToken
      have hLeft := remaining_of_token hToken
      intro t hMem
      rcases List.mem_cons.mp hMem with rfl | hMem
      · change _ < first.offset + c.remaining
        omega
      · have hAfter := ih t hMem
        omega
  | case2 c first hToken =>
      intro t hMem
      cases hMem

/- Each token starts behind the one before it. -/
theorem pairwise_offset_tokens
    (c : Cursor) :
    c.tokens.tokens.Pairwise fun s t =>
      s.location.offset < t.location.offset := by
  fun_induction tokens c with
  | case1 c first hToken following ih =>
      refine List.pairwise_cons.mpr ⟨?_, ih⟩
      intro t hMem
      have hNext := (reaches_readToken first).offset_add_length
      have hLt := remaining_readToken_lt hToken
      have hLeft := remaining_of_token hToken
      have hAfter := lt_offset_of_mem_tokens first.readToken.2 t hMem
      change first.offset < t.location.offset
      omega
  | case2 c first hToken => exact List.Pairwise.nil

end Cursor

/-
  The places that a text has: those of its characters, and the
  one behind it unless a null character ends it.
-/
def Location.IsIn (text : List Char) (l : Location) : Prop :=
  (∃ i, i < text.length ∧ l = ofIndex text i) ∨
    l = behind text ∧ text.getLast? ≠ some '\x00'

theorem Cursor.IsIn.location
    {text : List Char}
    {c : Cursor}
    (h : c.IsIn text) :
    c.location.IsIn text := by
  cases h with
  | ofIndex i hIndex => exact Or.inl ⟨i, hIndex, rfl⟩
  | behind hLast => exact Or.inr ⟨rfl, hLast⟩

theorem isIn_of_mem_tokens
    {text : List Char}
    {t : Located}
    (h : t ∈ (TokenStream.ofText text).tokens) :
    t.location.IsIn text := by
  rcases Cursor.reaches_of_mem_tokens _ t h with
    ⟨d, hReaches, hLocation⟩
  rw [← hLocation]
  exact ((Cursor.isIn_start text).of_reaches hReaches).location

theorem isIn_finish
    (text : List Char) :
    (TokenStream.ofText text).finish.IsIn text := by
  rcases Cursor.reaches_finish (Cursor.start text) with
    ⟨d, hReaches, hLocation⟩
  have hIn := ((Cursor.isIn_start text).of_reaches hReaches).location
  rwa [hLocation] at hIn

end DotLang
