import DotLang.Proofs.Parser.Limit
import DotLang.Proofs.Token.Places

/-
  This file follows the calls of the lexer on a text.  Each one
  moves over a character at least until the end of the file is
  answered, and from then on nothing changes.

  Key definitions include:
    * `Cursor.afterCalls`
    * `LexesToEnd`

  Key theorems include:
    * `Cursor.remaining_nextToken_lt`
    * `Cursor.nextToken_of_endOfFile`
    * `Cursor.getElem?_toList_tokens`
    * `lexesToEnd`
-/

------------------------------------------------------------
-- Single Calls
------------------------------------------------------------

namespace DotLang

namespace Cursor

/- A call moves on unless it answers the end of the file. -/
theorem remaining_nextToken_lt
    {c : Cursor}
    (h : c.nextToken.1 ≠ .endOfFile) :
    c.nextToken.2.remaining < c.remaining :=
  Nat.lt_of_lt_of_le (remaining_readToken_lt h)
    (remaining_skipTrivia_le c)

/- Behind the end of the file there is nothing to skip. -/
theorem skipTrivia_of_atEnd
    {c : Cursor}
    (h : c.atEnd = true) :
    c.skipTrivia = c := by
  have hNull : c.current = '\x00' := by
    simp [atEnd] at h
    exact h.1
  have hToken : c.AtToken := by
    constructor <;> rw [hNull] <;> decide
  exact hToken.skipTrivia

/- Behind the end of the file the answer stays the same. -/
theorem nextToken_of_endOfFile
    {c : Cursor}
    (h : c.nextToken.1 = .endOfFile) :
    c.nextToken.2.nextToken = c.nextToken := by
  have hEnd : c.skipTrivia.atEnd = true :=
    readToken_eq_endOfFile_iff.mp h
  have hCall : c.nextToken = (.endOfFile, c.skipTrivia) :=
    readToken_of_atEnd hEnd
  rw [hCall]
  show c.skipTrivia.skipTrivia.readToken = _
  rw [skipTrivia_of_atEnd hEnd, readToken_of_atEnd hEnd]

/- The tokens are the answers up to the end of the file. -/
theorem tokens_apply
    (c : Cursor) :
    c.tokens =
      if c.nextToken.1 = .endOfFile then
        { tokens := [], finish := c.skipTrivia.location }
      else
        { c.nextToken.2.tokens with
          tokens :=
            ⟨c.nextToken.1, c.skipTrivia.location⟩ ::
              c.nextToken.2.tokens.tokens } := by
  rw [tokens]
  by_cases hEnd : c.skipTrivia.readToken.1 = .endOfFile <;>
    simp [hEnd, nextToken]

theorem toList_tokens
    (c : Cursor) :
    c.tokens.toList =
      ⟨c.nextToken.1, c.skipTrivia.location⟩ ::
        if c.nextToken.1 = .endOfFile then
          []
        else
          c.nextToken.2.tokens.toList := by
  rw [tokens_apply]
  by_cases hEnd : c.nextToken.1 = .endOfFile <;>
    simp [hEnd, TokenStream.toList]

------------------------------------------------------------
-- Rows of Calls
------------------------------------------------------------

/- The cursor after a number of calls. -/
def afterCalls : Nat → Cursor → Cursor
| 0, c => c
| n + 1, c => afterCalls n c.nextToken.2

theorem reaches_afterCalls
    (n : Nat)
    (c : Cursor) :
    c.Reaches (c.afterCalls n) := by
  induction n generalizing c with
  | zero => exact Reaches.refl c
  | succ n ih =>
      have hCall : c.Reaches c.nextToken.2 :=
        (reaches_skipTrivia c).trans (reaches_readToken _)
      exact hCall.trans (ih c.nextToken.2)

/- The stream lists what the calls answer, and where. -/
theorem getElem?_toList_tokens
    {c : Cursor}
    {n : Nat}
    {t : Located}
    (h : c.tokens.toList[n]? = some t) :
    t.token = (c.afterCalls n).nextToken.1 ∧
      t.location = (c.afterCalls n).skipTrivia.location := by
  induction n generalizing c with
  | zero =>
      rw [toList_tokens, List.getElem?_cons_zero] at h
      cases h
      exact ⟨rfl, rfl⟩
  | succ n ih =>
      rw [toList_tokens, List.getElem?_cons_succ] at h
      split at h
      · cases h
      · exact ih h

/- From the end of the file on, no call moves the cursor. -/
theorem nextToken_afterCalls_of_endOfFile
    {c : Cursor}
    (h : c.nextToken.1 = .endOfFile)
    (n : Nat) :
    (afterCalls n c).nextToken = c.nextToken := by
  induction n generalizing c with
  | zero => rfl
  | succ n ih =>
      have hSame := nextToken_of_endOfFile h
      rw [afterCalls, ih (by rw [hSame]; exact h), hSame]

/- As many other answers come first as there are tokens. -/
theorem nextToken_afterCalls
    (c : Cursor)
    (n : Nat) :
    (n < c.tokens.tokens.length →
      (c.afterCalls n).nextToken.1 ≠ .endOfFile) ∧
      (c.tokens.tokens.length ≤ n →
        (c.afterCalls n).nextToken =
          (.endOfFile,
            c.afterCalls (c.tokens.tokens.length + 1))) := by
  fun_induction Cursor.tokens c generalizing n with
  | case1 c first hToken following ih =>
      have hFollowing : following = first.readToken.2.tokens := rfl
      rw [← hFollowing] at ih
      simp only [List.length_cons]
      cases n with
      | zero => exact ⟨fun _ => hToken, fun h => by omega⟩
      | succ n =>
          have hRest := ih n
          exact ⟨fun h => hRest.1 (by omega),
            fun h => hRest.2 (by omega)⟩
  | case2 c first hToken =>
      have hEnd : c.nextToken.1 = .endOfFile :=
        not_ne_iff.mp hToken
      refine ⟨fun h => absurd h (Nat.not_lt_zero n), fun _ => ?_⟩
      rw [nextToken_afterCalls_of_endOfFile hEnd, ← hEnd]
      rfl

end Cursor

/-
  The lexer comes to the end of a text.  A call consumes a
  character or answers the end of the file.  That is answered
  after as many calls as there are characters at most, and by
  all calls from then on, which do not move the cursor.
-/
structure LexesToEnd (text : List Char) : Prop where
  consumes :
    ∀ c : Cursor,
      c.nextToken.1 ≠ .endOfFile →
        c.nextToken.2.remaining < c.remaining
  ends :
    ∃ first ≤ text.length,
      ∀ n,
        (n < first →
          ((Cursor.start text).afterCalls n).nextToken.1 ≠
            .endOfFile) ∧
          (first ≤ n →
            ((Cursor.start text).afterCalls n).nextToken =
              (.endOfFile,
                (Cursor.start text).afterCalls (first + 1)))

theorem lexesToEnd
    (text : List Char) :
    LexesToEnd text where
  consumes _ h := Cursor.remaining_nextToken_lt h
  ends :=
    ⟨_, length_tokens_ofText_le text,
      Cursor.nextToken_afterCalls (Cursor.start text)⟩

end DotLang
