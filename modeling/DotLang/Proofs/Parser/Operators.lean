import DotLang.Proofs.Parser.Progress
import DotLang.Proofs.Token.Places

/-
  This file proves that the parser takes the edge operators of
  its statements from the text, in the order of the text.  The
  operators of broken statements are left out, and no operator
  is taken twice.

  Key definitions include:
    * `Operator`
    * `Stmt.operators`
    * `operatorsIn`
    * `Parser.Gathers`

  Key theorems include:
    * `Parser.Gathers.bind`
    * `Parser.gathers_block`
    * `Parser.gathers_file`
    * `Parser.operators_sublist`
-/

------------------------------------------------------------
-- Operators
------------------------------------------------------------

namespace DotLang

/- An edge operator and its place. -/
structure Operator where
  arrow : Arrow
  location : Location
deriving DecidableEq, Repr

mutual

/- The edge operators in a text, from left to right. -/
def Endpoint.operators : Endpoint → List Operator
| .node _ => []
| .subgraph _ body => bodyOperators body

def stepsOperators : List EdgeStep → List Operator
| [] => []
| .mk arrow location head :: rest =>
    ⟨arrow, location⟩ :: (head.operators ++ stepsOperators rest)

def Stmt.operators : Stmt → List Operator
| .edge tail steps _ => tail.operators ++ stepsOperators steps
| .node _ _ => []
| .defaults _ _ => []
| .assign _ => []
| .subgraph _ body => bodyOperators body

def bodyOperators : List Stmt → List Operator
| [] => []
| stmt :: rest => stmt.operators ++ bodyOperators rest

end

/- The edge operators in the text of a graph. -/
def GraphDecl.operators (decl : GraphDecl) : List Operator :=
  bodyOperators decl.body

theorem flatMap_stepsOperators
    (steps : List EdgeStep) :
    (steps.flatMap fun step => stepsOperators [step]) =
      stepsOperators steps := by
  induction steps with
  | nil => rfl
  | cons step rest ih =>
      rcases step with ⟨arrow, location, head⟩
      rw [List.flatMap_cons, ih, stepsOperators, stepsOperators,
        stepsOperators, List.append_nil, List.cons_append]

/- The operator that a token is, if it is one. -/
def Located.operator? (t : Located) : Option Operator :=
  (Parser.arrowOf? t.token).map fun arrow => ⟨arrow, t.location⟩

/- The edge operators among tokens. -/
def operatorsIn (tokens : List Located) : List Operator :=
  tokens.filterMap Located.operator?

theorem operatorsIn_append
    (first second : List Located) :
    operatorsIn (first ++ second) =
      operatorsIn first ++ operatorsIn second :=
  List.filterMap_append

------------------------------------------------------------
-- Gathering
------------------------------------------------------------

namespace Parser

variable {α β : Type} {step : Step α} {before : List Operator}
variable {after : α → List Operator}

/-
  A step that succeeds adds some of the operators that it takes
  from the text to those that were gathered before.
-/
def Gathers
    (before : List Operator)
    (step : Step α)
    (after : α → List Operator) : Prop :=
  ∀ (p q : Parser) (a : α),
    step p = .ok a q →
      ∃ spent : List Located,
        p.stream.tokens = spent ++ q.stream.tokens ∧
          (after a).Sublist (before ++ operatorsIn spent)

theorem gathers_pure
    {a : α}
    (h : (after a).Sublist before) :
    Gathers before (pure a) after := by
  intro p q b hStep
  cases hStep
  refine ⟨[], rfl, ?_⟩
  rw [operatorsIn, List.filterMap_nil, List.append_nil]
  exact h

theorem gathers_unexpected
    (allowed : Expectation) :
    Gathers before (unexpected allowed) after := by
  intro p q a hStep
  rw [unexpected_apply] at hStep
  cases hStep

/- A step need not add any of the operators that it takes. -/
theorem IsForward.gathers
    (h : IsForward step)
    (before : List Operator) :
    Gathers before step fun _ => before := by
  intro p q a hStep
  rcases (h.of_ok hStep).tokens with ⟨spent, hTokens⟩
  exact ⟨spent, hTokens.symm, List.sublist_append_left _ _⟩

theorem Gathers.bind
    {second : α → Step β}
    {last : β → List Operator}
    (h : Gathers before step after)
    (h' : ∀ a, Gathers (after a) (second a) last) :
    Gathers before (step >>= second) last := by
  intro p r b hStep
  rcases bind_eq_ok.mp hStep with ⟨a, q, hFirst, hSecond⟩
  rcases h p q a hFirst with ⟨spent, hTokens, hAfter⟩
  rcases h' a q r b hSecond with ⟨spent', hTokens', hLast⟩
  refine ⟨spent ++ spent', ?_, ?_⟩
  · rw [hTokens, hTokens', List.append_assoc]
  · rw [operatorsIn_append, ← List.append_assoc]
    exact hLast.trans (hAfter.append_right _)

/- A step that adds nothing may come first. -/
theorem IsForward.gathers_bind
    {second : α → Step β}
    {last : β → List Operator}
    (h : IsForward step)
    (h' : ∀ a, Gathers before (second a) last) :
    Gathers before (step >>= second) last :=
  (h.gathers before).bind h'

/- What a step adds to nothing it adds to everything. -/
theorem Gathers.prepend
    (h : Gathers [] step after)
    (before : List Operator) :
    Gathers before step fun a => before ++ after a := by
  intro p q a hStep
  rcases h p q a hStep with ⟨spent, hTokens, hAfter⟩
  rw [List.nil_append] at hAfter
  exact ⟨spent, hTokens, hAfter.append_left before⟩

/- What each round of a repeated step adds, the rounds add. -/
theorem Gathers.many
    {step : Step (Option α)}
    (h : Gathers [] step fun found => found.toList.flatMap after)
    (bound : Nat)
    (before : List Operator) :
    Gathers before (many step bound) fun found =>
      before ++ found.flatMap after := by
  induction bound generalizing before with
  | zero => exact gathers_pure (by simp)
  | succ bound ih =>
      refine (h.prepend before).bind fun first => ?_
      cases first with
      | none => exact gathers_pure (by simp)
      | some first =>
          refine (ih _).bind fun rest => ?_
          apply gathers_pure
          simp

------------------------------------------------------------
-- Statements
------------------------------------------------------------

section Statements

variable {inner : Step (List Stmt)}
variable (hInner : Gathers [] inner bodyOperators)

include hInner

theorem gathers_subgraph :
    Gathers [] (subgraph inner) fun found =>
      bodyOperators found.2 := by
  refine (isForward_accept _).gathers_bind fun hasKeyword => ?_
  split
  · refine isForward_acceptName.gathers_bind fun name => ?_
    refine (isForward_expect _).gathers_bind fun _ => ?_
    exact hInner.bind fun body =>
      gathers_pure (List.Sublist.refl _)
  · refine (isForward_expect _).gathers_bind fun _ => ?_
    exact hInner.bind fun body =>
      gathers_pure (List.Sublist.refl _)

theorem gathers_endpoint :
    Gathers [] (endpoint inner) Endpoint.operators := by
  have hSubgraph :
      Gathers []
        (do
          let found ← subgraph inner
          return Endpoint.subgraph found.1 found.2)
        Endpoint.operators :=
    (gathers_subgraph hInner).bind fun found =>
      gathers_pure (by rw [Endpoint.operators])
  refine isForward_peek.gathers_bind fun current => ?_
  split
  · exact isForward_nodeRef.gathers_bind fun ref =>
      gathers_pure (List.nil_sublist _)
  · exact hSubgraph
  · exact hSubgraph
  · exact gathers_unexpected _

/- The operator of an edge comes before those behind it. -/
theorem gathers_edgeStep :
    Gathers [] (edgeStep inner) fun found =>
      found.toList.flatMap fun step => stepsOperators [step] := by
  intro p q found hStep
  rcases bind_eq_ok.mp hStep with ⟨current, _, hPeek, hStep⟩
  cases hPeek
  cases hArrow : arrowOf? p.current with
  | none =>
      rw [hArrow] at hStep
      cases hStep
      exact ⟨[], rfl, List.Sublist.refl _⟩
  | some arrow =>
      rw [hArrow] at hStep
      rcases bind_eq_ok.mp hStep with ⟨_, _, hGet, hStep⟩
      cases hGet
      rcases bind_eq_ok.mp hStep with ⟨_, _, hTake, hStep⟩
      cases hTake
      rcases bind_eq_ok.mp hStep with ⟨head, r, hHead, hStep⟩
      cases hStep
      rcases gathers_endpoint hInner _ _ _ hHead with
        ⟨spent, hTokens, hOperators⟩
      cases hAll : p.stream.tokens with
      | nil =>
          rw [current, TokenStream.current, hAll] at hArrow
          cases hArrow
      | cons t tokens =>
          have hToken : p.current = t.token := by
            rw [current, TokenStream.current, hAll]
          have hPlace : p.stream.location = t.location := by
            rw [TokenStream.location, hAll]
          have hRest : p.advance.stream.tokens = tokens := by
            rw [advance, TokenStream.advance, hAll, List.tail_cons]
          have hOperator :
              t.operator? = some ⟨arrow, t.location⟩ := by
            rw [Located.operator?, ← hToken, hArrow,
              Option.map_some]
          rw [hRest] at hTokens
          refine ⟨t :: spent, by rw [hTokens, List.cons_append], ?_⟩
          rw [List.nil_append] at hOperators ⊢
          rw [operatorsIn, List.filterMap_cons_some hOperator,
            hPlace]
          simpa [stepsOperators, operatorsIn] using hOperators

theorem gathers_edgeStmt
    (tail : Endpoint) :
    Gathers tail.operators (edgeStmt inner tail)
      Stmt.operators := by
  refine isForward_get.gathers_bind fun p => ?_
  refine ((gathers_edgeStep hInner).many _ _).bind fun steps => ?_
  refine isForward_optionalLists.gathers_bind fun attributes => ?_
  apply gathers_pure
  rw [Stmt.operators, flatMap_stepsOperators]

omit hInner in
theorem gathers_assignment
    (ref : NodeRef) :
    Gathers [] (assignment ref) Stmt.operators := by
  unfold assignment
  split
  · intro p q a hStep
    cases hStep
  · refine (isForward_expect _).gathers_bind fun _ => ?_
    exact isForward_expectValue.gathers_bind fun value =>
      gathers_pure (List.nil_sublist _)

theorem gathers_namedStmt :
    Gathers [] (namedStmt inner) Stmt.operators := by
  refine isForward_nodeRef.gathers_bind fun ref => ?_
  refine isForward_peek.gathers_bind fun current => ?_
  split
  · exact gathers_edgeStmt hInner (.node ref)
  · exact gathers_edgeStmt hInner (.node ref)
  · exact gathers_assignment ref
  · exact isForward_optionalLists.gathers_bind fun attributes =>
      gathers_pure (List.nil_sublist _)

theorem gathers_subgraphStmt :
    Gathers [] (subgraphStmt inner) Stmt.operators := by
  refine (gathers_subgraph hInner).bind fun found => ?_
  refine isForward_peek.gathers_bind fun current => ?_
  split
  · exact gathers_edgeStmt hInner (.subgraph found.1 found.2)
  · exact gathers_pure (List.Sublist.refl _)

omit hInner in
theorem gathers_defaultsStmt
    (kind : EntityKind) :
    Gathers [] (defaultsStmt kind) Stmt.operators := by
  refine isForward_take.gathers_bind fun _ => ?_
  exact isForward_attributeLists.gathers_bind fun attributes =>
    gathers_pure (List.nil_sublist _)

theorem gathers_stmt :
    Gathers [] (stmt inner) Stmt.operators := by
  refine isForward_peek.gathers_bind fun current => ?_
  split
  · exact gathers_namedStmt hInner
  · exact gathers_subgraphStmt hInner
  · exact gathers_subgraphStmt hInner
  · exact gathers_defaultsStmt _
  · exact gathers_defaultsStmt _
  · exact gathers_defaultsStmt _
  · exact gathers_unexpected _

/- The operators of a broken statement are passed over. -/
theorem gathers_stmtOrRecover
    (hForward : IsForward inner) :
    Gathers [] (stmtOrRecover inner) fun found =>
      found.toList.flatMap Stmt.operators := by
  intro p q found hStep
  cases found with
  | none =>
      rcases (isForward_stmtOrRecover hForward).gathers [] p q _
        hStep with ⟨spent, hTokens, hNone⟩
      exact ⟨spent, hTokens, hNone⟩
  | some parsed =>
      rw [stmtOrRecover_apply] at hStep
      cases hStmt : stmt inner p with
      | ok other r =>
          rw [hStmt] at hStep
          cases hStep
          simpa using gathers_stmt hInner p q parsed hStmt
      | error d r =>
          simp only [hStmt] at hStep
          split at hStep
          · cases hStep
          · split at hStep
            · cases hStep
            · cases hStep

end Statements

------------------------------------------------------------
-- Blocks and Graphs
------------------------------------------------------------

theorem gathers_block
    (bound : Nat) :
    Gathers [] (block bound) bodyOperators := by
  induction bound with
  | zero => exact gathers_unexpected _
  | succ bound ih =>
      refine isForward_peek.gathers_bind fun current => ?_
      split
      · exact isForward_take.gathers_bind fun _ => ih
      · exact isForward_take.gathers_bind fun _ =>
          gathers_pure (List.nil_sublist _)
      · exact gathers_unexpected _
      · refine (gathers_stmtOrRecover ih
          (isForward_block bound)).bind fun parsed => ?_
        refine (ih.prepend _).bind fun rest => ?_
        apply gathers_pure
        cases parsed with
        | none => exact List.Sublist.refl _
        | some stmt => simp [bodyOperators]

theorem gathers_graph : Gathers [] graph GraphDecl.operators := by
  refine (isForward_accept _).gathers_bind fun strict => ?_
  refine isForward_graphKind.gathers_bind fun directed => ?_
  refine isForward_acceptName.gathers_bind fun name => ?_
  refine (isForward_expect _).gathers_bind fun _ => ?_
  have hBlock : Gathers [] wholeBlock bodyOperators :=
    isForward_get.gathers_bind fun _ => gathers_block _
  exact hBlock.bind fun body =>
    gathers_pure (List.Sublist.refl _)

theorem gathers_anotherGraph :
    Gathers [] anotherGraph fun found =>
      found.toList.flatMap GraphDecl.operators := by
  refine isForward_peek.gathers_bind fun current => ?_
  split
  · exact gathers_pure (List.nil_sublist _)
  · refine gathers_graph.bind fun decl => ?_
    apply gathers_pure
    simp

theorem gathers_file :
    Gathers [] file fun decls =>
      decls.flatMap GraphDecl.operators := by
  refine isForward_take.gathers_bind fun _ => ?_
  refine isForward_get.gathers_bind fun p => ?_
  refine (gathers_anotherGraph.many _ _).bind fun decls => ?_
  split
  · exact gathers_unexpected _
  · exact gathers_pure (List.Sublist.refl _)

/- The operators of a file are operators of its text, in order. -/
theorem operators_sublist
    {text : List Char}
    {options : Options}
    {decls : List GraphDecl}
    {p : Parser}
    (h : file (ofText text options) = .ok decls p) :
    (decls.flatMap GraphDecl.operators).Sublist
      (operatorsIn (TokenStream.ofText text).tokens) := by
  rcases gathers_file _ _ _ h with ⟨spent, hTokens, hOperators⟩
  have hColon :
      operatorsIn (ofText text options).stream.tokens =
        operatorsIn (TokenStream.ofText text).tokens := rfl
  rw [← hColon, hTokens, operatorsIn_append]
  exact hOperators.trans (List.sublist_append_left _ _)

end Parser

end DotLang
