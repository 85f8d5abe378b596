import DotLang.Proofs.Grammar.Completeness
import DotLang.Proofs.Parser.Turns

/-
  This file proves that bounds make no difference to blocks, and
  says where a block goes on while a text is parsed.

  A block is read in turns.  The parser is in front of a turn
  when it enters the block, when it leaves a semicolon or a
  statement, broken or not, and when a statement of the turn
  enters a block inside.  What ends the parser in a turn ends it
  for the whole text.

  Key definitions include:
    * `Parser.AtStmt`
    * `Parser.Enters`
    * `Parser.AtTurn`

  Key theorems include:
    * `Parser.block_eq_wholeBlock`
    * `Parser.wholeBlock_apply`
    * `Parser.stmt_eq_of_enters`
    * `Parser.atTurn_of_header`
    * `Parser.AtTurn.file_eq_error`
-/

------------------------------------------------------------
-- Blocks without Bounds
------------------------------------------------------------

namespace DotLang

namespace Parser

/- The next token is one of a statement. -/
def AtStmt (p : Parser) : Prop :=
  p.current ≠ .symbol .semicolon ∧
    p.current ≠ .symbol .closeBrace ∧
    p.current ≠ .endOfFile

instance (p : Parser) : Decidable p.AtStmt := by
  unfold AtStmt
  infer_instance

theorem stmtOrRecover_congr
    {inner inner' : Step (List Stmt)}
    {p : Parser}
    (h : stmt inner p = stmt inner' p) :
    stmtOrRecover inner p = stmtOrRecover inner' p := by
  rw [stmtOrRecover_apply, stmtOrRecover_apply, h]

/- A turn of a block for which fewer tokens are left behind it. -/
theorem turn_congr
    {inner inner' : Step (List Stmt)}
    {p : Parser}
    (hForward : IsForward inner)
    (hTurn : p.AtStmt)
    (hInner :
      ∀ q : Parser,
        q.stream.tokens.length < p.stream.tokens.length →
          inner q = inner' q) :
    (stmtOrRecover inner >>= fun parsed =>
        (parsed.toList ++ ·) <$> inner) p =
      (stmtOrRecover inner' >>= fun parsed =>
        (parsed.toList ++ ·) <$> inner') p := by
  have hStmt : stmt inner p = stmt inner' p :=
    alike_stmt.eq_of_inner hForward hInner
  rw [bind_apply, bind_apply, ← stmtOrRecover_congr hStmt]
  cases hStep : stmtOrRecover inner p with
  | error d q => rfl
  | ok parsed q =>
      have hLess := length_lt_of_stmtOrRecover hForward hTurn.2.2
        hTurn.2.1 hStep
      simp only [map_apply, hInner q hLess]

/- Blocks are the same for all bounds that suffice. -/
theorem block_eq_of_length_lt
    {p : Parser}
    {m n : Nat}
    (hm : p.stream.tokens.length < m)
    (hn : p.stream.tokens.length < n) :
    block m p = block n p := by
  induction m generalizing p n with
  | zero => cases hm
  | succ m ih =>
      rcases n with _ | n
      · cases hn
      have hInner :
          ∀ q : Parser,
            q.stream.tokens.length < p.stream.tokens.length →
              block m q = block n q :=
        fun q hLess => ih (by omega) (by omega)
      rw [block_apply, block_apply]
      split
      · rename_i hSemicolon
        exact hInner _ (length_advance_lt (by simp [hSemicolon]))
      · rename_i hSemicolon
        split
        · rfl
        · rename_i hClose
          split
          · rfl
          · rename_i hEnd
            exact turn_congr (isForward_block m)
              ⟨hSemicolon, hClose, hEnd⟩ hInner

theorem block_eq_wholeBlock
    {p : Parser}
    {bound : Nat}
    (hBound : p.stream.tokens.length < bound) :
    block bound p = wholeBlock p :=
  block_eq_of_length_lt hBound (Nat.lt_succ_self _)

/- What a block is, by its first token. -/
theorem wholeBlock_apply
    (p : Parser) :
    wholeBlock p =
      if p.current = .symbol .semicolon then
        wholeBlock p.advance
      else if p.current = .symbol .closeBrace then
        .ok [] p.advance
      else if p.current = .endOfFile then
        .error (p.stream.unexpected (.symbol .closeBrace)) p
      else
        (stmtOrRecover wholeBlock >>= fun parsed =>
          (parsed.toList ++ ·) <$> wholeBlock) p := by
  have hBlock : wholeBlock p = block (p.stream.tokens.length + 1) p :=
    rfl
  rw [hBlock, block_apply]
  split
  · rename_i hSemicolon
    exact block_eq_wholeBlock
      (length_advance_lt (by simp [hSemicolon]))
  · rename_i hSemicolon
    split
    · rfl
    · rename_i hClose
      split
      · rfl
      · rename_i hEnd
        exact turn_congr (isForward_block _)
          ⟨hSemicolon, hClose, hEnd⟩ fun q => block_eq_wholeBlock

theorem wholeBlock_of_semicolon
    {p : Parser}
    (hSemicolon : p.current = .symbol .semicolon) :
    wholeBlock p = wholeBlock p.advance := by
  rw [wholeBlock_apply, if_pos hSemicolon]

theorem wholeBlock_of_closeBrace
    {p : Parser}
    (hClose : p.current = .symbol .closeBrace) :
    wholeBlock p = .ok [] p.advance := by
  rw [wholeBlock_apply, if_neg (by simp [hClose]), if_pos hClose]

theorem wholeBlock_of_atStmt
    {p : Parser}
    (hTurn : p.AtStmt) :
    wholeBlock p =
      (stmtOrRecover wholeBlock >>= fun parsed =>
        (parsed.toList ++ ·) <$> wholeBlock) p := by
  rw [wholeBlock_apply, if_neg hTurn.1, if_neg hTurn.2.1,
    if_neg hTurn.2.2]

------------------------------------------------------------
-- Turns of Blocks
------------------------------------------------------------

/-
  On its way from the first parser, the step runs the inner step
  on the block behind an opening brace, at the second parser.
-/
inductive Enters
    (inner : Step (List Stmt)) :
    {α : Type} → Step α → Parser → Parser → Prop where
| braced
    {p : Parser}
    (hOpen : p.current = .symbol .openBrace) :
    Enters inner (expect .openBrace >>= fun _ => inner) p p.advance
| first
    {α β : Type}
    {first : Step α}
    {second : α → Step β}
    {p q : Parser}
    (h : Enters inner first p q) :
    Enters inner (first >>= second) p q
| second
    {α β : Type}
    {first : Step α}
    {second : α → Step β}
    {a : α}
    {p q r : Parser}
    (hFirst : first p = .ok a q)
    (h : Enters inner (second a) q r) :
    Enters inner (first >>= second) p r

theorem Alike.eq_of_enters
    {α : Type}
    {inner inner' : Step (List Stmt)}
    {step step' : Step α}
    {p : Parser}
    (h : Alike inner inner' step step' p)
    (hInner : ∀ q, Enters inner step p q → inner q = inner' q) :
    step p = step' p := by
  induction h with
  | pure a => rfl
  | get => rfl
  | take hEnd hPlain => rfl
  | unexpected allowed => rfl
  | portAssigned => rfl
  | @bind _ _ first _ _ _ p _ _ ihFirst ihSecond =>
      have hFirst := ihFirst fun q hEnters => hInner q (.first hEnters)
      rw [bind_apply, bind_apply, ← hFirst]
      cases hStep : first p with
      | error d q => rfl
      | ok a q =>
          exact ihSecond a q hStep fun r hEnters =>
            hInner r (.second hStep hEnters)
  | @braced p =>
      rw [bind_apply, bind_apply, expect_apply]
      by_cases hOpen : p.current = .symbol .openBrace
      · rw [if_pos hOpen]
        exact hInner _ (.braced hOpen)
      · rw [if_neg hOpen]

/- A statement does not depend on blocks that it does not enter. -/
theorem stmt_eq_of_enters
    {inner inner' : Step (List Stmt)}
    {p : Parser}
    (hInner :
      ∀ q, Enters inner (stmt inner) p q → inner q = inner' q) :
    stmt inner p = stmt inner' p :=
  alike_stmt.eq_of_enters hInner

/-
  While a text is parsed, the parser is in front of a turn of a
  block.
-/
inductive AtTurn
    (text : List Char)
    (options : Options) : Parser → Prop where
| graph
    {p : Parser}
    (h : Enters wholeBlock file (ofText text options) p) :
    AtTurn text options p
| semicolon
    {p : Parser}
    (h : AtTurn text options p)
    (hSemicolon : p.current = .symbol .semicolon) :
    AtTurn text options p.advance
| next
    {p q : Parser}
    {parsed : Option Stmt}
    (h : AtTurn text options p)
    (hTurn : p.AtStmt)
    (hStep : stmtOrRecover wholeBlock p = .ok parsed q) :
    AtTurn text options q
| inside
    {p q : Parser}
    (h : AtTurn text options p)
    (hTurn : p.AtStmt)
    (hEnters : Enters wholeBlock (stmt wholeBlock) p q) :
    AtTurn text options q

/- A graph enters the block behind its header. -/
theorem enters_graph
    (p : Parser)
    (d : HeaderTree)
    (rest : List Located) :
    Enters wholeBlock graph (p.facing (d.tokens ++ rest))
      (p.facing rest) := by
  rcases d with ⟨strict, directed, name, opening⟩
  have hBlock :
      Enters wholeBlock (expect .openBrace >>= fun _ => wholeBlock)
        (p.facing (Symbol.located .openBrace opening :: rest))
        (p.facing rest) :=
    .braced rfl
  have hName :
      acceptName
          (p.facing
            ((name.map nameToken).toList ++
              Symbol.located .openBrace opening :: rest)) =
        .ok (name.map Placed.value)
          (p.facing (Symbol.located .openBrace opening :: rest)) := by
    cases name <;> simp [acceptName_apply]
  have hStrict :
      accept (.keyword .strict)
          (p.facing
            ((strict.map (Keyword.located .strict)).toList ++
              directedToken directed ::
                ((name.map nameToken).toList ++
                  Symbol.located .openBrace opening :: rest))) =
        .ok strict.isSome
          (p.facing
            (directedToken directed ::
              ((name.map nameToken).toList ++
                Symbol.located .openBrace opening :: rest))) := by
    have hNotStrict := token_directedToken_ne_strict directed
    cases strict <;> simp [accept_apply, hNotStrict]
  have hTokens :
      HeaderTree.tokens ⟨strict, directed, name, opening⟩ ++ rest =
        (strict.map (Keyword.located .strict)).toList ++
          directedToken directed ::
            ((name.map nameToken).toList ++
              Symbol.located .openBrace opening :: rest) := by
    simp [HeaderTree.tokens]
  rw [hTokens]
  refine .second hStrict (.second (graphKind_facing p directed _)
    (.second hName ?_))
  rw [← bind_assoc]
  exact .first hBlock

/- A text is at a turn behind the header of its first graph. -/
theorem atTurn_of_header
    {text : List Char}
    {d : HeaderTree}
    {rest : List Located}
    (options : Options)
    (hTokens : (TokenStream.ofText text).tokens = d.tokens ++ rest) :
    AtTurn text options ((ofText text options).facing rest) := by
  have hStart :
      (ofText text options).advance =
        (ofText text options).facing (d.tokens ++ rest) := by
    rw [← hTokens]
    rfl
  have hHead :
      ((ofText text options).facing (d.tokens ++ rest)).current ≠
        .endOfFile := by
    rw [current_facing]
    exact headToken_headerTree d rest
  have hMany :
      ∀ bound,
        Enters wholeBlock (many anotherGraph (bound + 1))
          ((ofText text options).facing (d.tokens ++ rest))
          ((ofText text options).facing rest) := by
    intro bound
    refine .first (.second (peek_apply _) ?_)
    simp only [hHead, if_false]
    exact .first (enters_graph _ d rest)
  refine .graph (.second (take_apply _) (.second (get_apply _) ?_))
  rw [hStart]
  exact .first (hMany _)

section

variable {α : Type} {inner : Step (List Stmt)} {step : Step α}
variable {text : List Char} {options : Options}
variable {p q r : Parser} {d : Diagnostic}

/- A step fails where a block fails that it enters. -/
theorem Enters.eq_error
    (h : Enters inner step p q)
    (hInner : inner q = .error d r) :
    step p = .error d r := by
  induction h with
  | braced hOpen =>
      rw [bind_apply, expect_apply, if_pos hOpen]
      exact hInner
  | first _ ih => rw [bind_apply, ih hInner]
  | second hFirst _ ih =>
      rw [bind_apply, hFirst]
      exact ih hInner

/- What is fatal in a turn of a block ends the parser. -/
theorem AtTurn.file_eq_error
    (h : AtTurn text options p)
    (hFatal : d.isFatal = true)
    (hError : wholeBlock p = .error d r) :
    file (ofText text options) = .error d r := by
  induction h with
  | graph hEnters => exact hEnters.eq_error hError
  | semicolon _ hSemicolon ih =>
      apply ih
      rw [wholeBlock_of_semicolon hSemicolon, hError]
  | next _ hTurn hStep ih =>
      apply ih
      rw [wholeBlock_of_atStmt hTurn, bind_apply, hStep]
      simp only [map_apply, hError]
  | inside _ hTurn hEnters ih =>
      apply ih
      rw [wholeBlock_of_atStmt hTurn, bind_apply,
        stmtOrRecover_apply, hEnters.eq_error hError]
      simp only [hFatal, if_true]

end

end Parser

end DotLang
