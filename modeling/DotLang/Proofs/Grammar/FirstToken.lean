import DotLang.Proofs.Grammar.Derivation
import DotLang.Proofs.Parser.Step

/-
  This file tells parts of the grammar apart by their first
  tokens, which is all that the parser looks at.

  Key definitions include:
    * `Parser.ClosesStmt`
    * `Parser.StartsStmt`

  Key theorems include:
    * `Parser.startsStmt_stmtTree`
    * `Parser.closesStmt_bodyTree`
-/

------------------------------------------------------------
-- Terminals
------------------------------------------------------------

namespace DotLang

namespace Parser

@[simp] theorem headToken_nil : headToken [] = .endOfFile := rfl

@[simp] theorem headToken_cons
    (t : Located)
    (rest : List Located) :
    headToken (t :: rest) = t.token := rfl

@[simp] theorem token_located
    (mark : Symbol)
    (l : Location) :
    (mark.located l).token = .symbol mark := rfl

@[simp] theorem token_keywordLocated
    (word : Keyword)
    (l : Location) :
    (word.located l).token = .keyword word := rfl

@[simp] theorem token_nameToken
    (name : Placed String) :
    (nameToken name).token = .identifier name.value := rfl

@[simp] theorem arrowOf?_arrowToken
    (arrow : Placed Arrow) :
    arrowOf? (arrowToken arrow).token = some arrow.value := by
  rcases arrow with ⟨arrow, location⟩
  cases arrow <;> rfl

@[simp] theorem location_arrowToken
    (arrow : Placed Arrow) :
    (arrowToken arrow).location = arrow.location := by
  rcases arrow with ⟨arrow, location⟩
  cases arrow <;> rfl

theorem token_arrowToken
    (arrow : Placed Arrow) :
    (arrowToken arrow).token = .symbol .arrow ∨
      (arrowToken arrow).token = .symbol .line := by
  rcases arrow with ⟨arrow, location⟩
  cases arrow
  · exact Or.inl rfl
  · exact Or.inr rfl

theorem token_directedToken_ne_strict
    (directed : Placed Bool) :
    (directedToken directed).token ≠ .keyword .strict := by
  rcases directed with ⟨directed, location⟩
  cases directed <;> simp [directedToken]

/- A graph does not start where a file ends. -/
theorem headToken_headerTree
    (d : HeaderTree)
    (rest : List Located) :
    headToken (d.tokens ++ rest) ≠ .endOfFile := by
  rcases d with ⟨_ | strict, ⟨_ | _, _⟩, name, opening⟩
  all_goals simp [HeaderTree.tokens, directedToken]

theorem headToken_graphTree
    (d : GraphTree)
    (rest : List Located) :
    headToken (d.tokens ++ rest) ≠ .endOfFile := by
  rw [GraphTree.tokens, List.append_assoc]
  exact headToken_headerTree d.header _

------------------------------------------------------------
-- Parts of Statements
------------------------------------------------------------

/- Separators behind an attribute belong to it. -/
def ClosesAttribute (token : Token) : Prop :=
  token ≠ .symbol .semicolon ∧ token ≠ .symbol .comma

theorem headToken_stepsTree
    (d : StepsTree)
    (rest : List Located) :
    headToken (d.tokens ++ rest) = .symbol .arrow ∨
      headToken (d.tokens ++ rest) = .symbol .line := by
  cases d with
  | one arrow head => exact token_arrowToken arrow
  | more arrow head others => exact token_arrowToken arrow

theorem headToken_subgraphTree
    (d : SubgraphTree)
    (rest : List Located) :
    headToken (d.tokens ++ rest) = .keyword .subgraph ∨
      headToken (d.tokens ++ rest) = .symbol .openBrace := by
  rcases d with ⟨keyword, opening, body⟩
  cases keyword with
  | none => exact Or.inr rfl
  | some keyword => exact Or.inl rfl

/- A token that a mention does not go on with. -/
structure ClosesRef (token : Token) : Prop where
  notColon : token ≠ .symbol .colon
  notEqual : token ≠ .symbol .equal
  notArrow : arrowOf? token = none

/-
  A token that no statement goes on with.  All of a statement is
  read before such a token.
-/
structure ClosesStmt (token : Token) : Prop extends
    ClosesRef token where
  notBracket : token ≠ .symbol .openBracket

/- A token that starts a statement. -/
def StartsStmt : Token → Prop
| .identifier _ => True
| .keyword .subgraph => True
| .keyword .graph => True
| .keyword .node => True
| .keyword .edge => True
| .symbol .openBrace => True
| _ => False

theorem startsStmt_stmtTree
    (d : StmtTree)
    (rest : List Located) :
    StartsStmt (headToken (d.tokens ++ rest)) := by
  cases d with
  | node ref lists => trivial
  | edge tail steps lists =>
      cases tail with
      | node ref => trivial
      | subgraph tree =>
          rw [StmtTree.tokens, EndTree.tokens, List.append_assoc]
          rcases headToken_subgraphTree tree
              (steps.tokens ++ lists.flatMap ListTree.tokens ++
                rest) with hHead | hHead
          · rw [hHead]
            trivial
          · rw [hHead]
            trivial
  | defaults kind first others =>
      rcases kind with ⟨kind, location⟩
      cases kind <;> trivial
  | assign name equal value => trivial
  | subgraph tree =>
      rw [StmtTree.tokens]
      rcases headToken_subgraphTree tree rest with hHead | hHead
      · rw [hHead]
        trivial
      · rw [hHead]
        trivial

theorem StartsStmt.closesStmt
    {token : Token}
    (h : StartsStmt token) :
    ClosesStmt token := by
  cases token with
  | keyword word => refine ⟨⟨?_, ?_, ?_⟩, ?_⟩ <;> simp [arrowOf?]
  | identifier name => refine ⟨⟨?_, ?_, ?_⟩, ?_⟩ <;> simp [arrowOf?]
  | symbol mark =>
      cases mark
      case openBrace => refine ⟨⟨?_, ?_, ?_⟩, ?_⟩ <;> simp [arrowOf?]
      all_goals exact h.elim
  | endOfFile => exact h.elim
  | html text => exact h.elim
  | malformed cause => exact h.elim

/- A statement does not start where a block ends or goes on. -/
theorem StartsStmt.notSemicolon
    {token : Token}
    (h : StartsStmt token) :
    token ≠ .symbol .semicolon := by
  intro hToken
  rw [hToken] at h
  exact h

theorem StartsStmt.notBrace
    {token : Token}
    (h : StartsStmt token) :
    token ≠ .symbol .closeBrace := by
  intro hToken
  rw [hToken] at h
  exact h

theorem StartsStmt.notEnd
    {token : Token}
    (h : StartsStmt token) :
    token ≠ .endOfFile := by
  intro hToken
  rw [hToken] at h
  exact h

theorem length_stmtTree_pos
    (d : StmtTree) :
    0 < d.tokens.length := by
  have hStarts := startsStmt_stmtTree d []
  cases hTokens : d.tokens with
  | nil =>
      rw [hTokens] at hStarts
      exact hStarts.elim
  | cons t tokens => exact Nat.succ_pos _

theorem length_bodyTree_pos
    (d : BodyTree) :
    0 < d.tokens.length := by
  cases d with
  | close closing => simp [BodyTree.tokens]
  | semicolon location others => simp [BodyTree.tokens]
  | stmt first others =>
      have hFirst := length_stmtTree_pos first
      rw [BodyTree.tokens, List.length_append]
      omega

theorem closesStmt_bodyTree
    (d : BodyTree)
    (rest : List Located) :
    ClosesStmt (headToken (d.tokens ++ rest)) := by
  cases d with
  | close closing =>
      refine ⟨⟨?_, ?_, ?_⟩, ?_⟩ <;> simp [BodyTree.tokens, arrowOf?]
  | semicolon location others =>
      refine ⟨⟨?_, ?_, ?_⟩, ?_⟩ <;> simp [BodyTree.tokens, arrowOf?]
  | stmt first others =>
      rw [BodyTree.tokens, List.append_assoc]
      exact (startsStmt_stmtTree first _).closesStmt

theorem closesRef_lists
    (lists : List ListTree)
    {rest : List Located}
    (hRest : ClosesStmt (headToken rest)) :
    ClosesRef
      (headToken (lists.flatMap ListTree.tokens ++ rest)) := by
  cases lists with
  | nil => exact hRest.toClosesRef
  | cons first others =>
      constructor <;> simp [ListTree.tokens, arrowOf?]

end Parser

end DotLang
