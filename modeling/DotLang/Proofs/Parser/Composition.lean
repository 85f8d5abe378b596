import DotLang.Proofs.Parser.Step

/-
  This file says how the rules of the grammar are composed of
  the smallest steps of the parser.  What such compositions keep
  is then proven once for all rules.

  The step for the blocks inside a statement is left open.  A
  rule runs it behind an opening brace only.

  Key definitions include:
    * `Parser.IsComposed`

  Key theorems include:
    * `Parser.isComposed_stmt`
    * `Parser.isComposed_file`
-/

------------------------------------------------------------
-- Compositions
------------------------------------------------------------

namespace DotLang

namespace Parser

/-
  A step that takes tokens, looks at those that are left, fails
  because of them, and runs an inner step on blocks.
-/
inductive IsComposed
    (inner : Step (List Stmt)) : {α : Type} → Step α → Prop where
| pure
    {α : Type}
    (a : α) :
    IsComposed inner (Pure.pure a)
| take :
    IsComposed inner take
| unexpected
    {α : Type}
    (allowed : Expectation) :
    IsComposed inner (unexpected allowed : Step α)
| portAssigned :
    IsComposed inner
      (do throw (← get).portAssigned : Step Stmt)
| look
    {α : Type}
    {f : Parser → Step α}
    (hStep : ∀ p, IsComposed inner (f p))
    (hStream : ∀ p q, p.stream = q.stream → f p = f q) :
    IsComposed inner (get >>= f)
| bind
    {α β : Type}
    {first : Step α}
    {second : α → Step β}
    (hFirst : IsComposed inner first)
    (hSecond : ∀ a, IsComposed inner (second a)) :
    IsComposed inner (first >>= second)
| braced :
    IsComposed inner (expect .openBrace >>= fun _ => inner)

section

variable {α : Type} {inner : Step (List Stmt)}

/- What is made of a block is composed with it. -/
theorem IsComposed.block
    {next : List Stmt → Step α}
    (h : ∀ body, IsComposed inner (next body)) :
    IsComposed inner
      (expect .openBrace >>= fun _ => inner >>= next) := by
  have hAll := IsComposed.braced.bind h
  rwa [bind_assoc] at hAll

theorem IsComposed.many
    {step : Step (Option α)}
    (h : IsComposed inner step)
    (bound : Nat) :
    IsComposed inner (many step bound) := by
  induction bound with
  | zero => exact .pure _
  | succ bound ih =>
      refine h.bind fun first => ?_
      cases first with
      | none => exact .pure _
      | some first => exact ih.bind fun _ => .pure _

/- What is repeated within a bound is bounded by the tokens. -/
theorem IsComposed.within
    {β : Type}
    {step : Step (Option α)}
    {next : List α → Step β}
    (hStep : IsComposed inner step)
    (hNext : ∀ items, IsComposed inner (next items)) :
    IsComposed inner
      (get >>= fun p => Parser.many step p.bound >>= next) := by
  refine .look (fun p => (hStep.many p.bound).bind hNext) ?_
  intro p q hStream
  rw [bound, bound, hStream]

------------------------------------------------------------
-- Single Tokens
------------------------------------------------------------

theorem isComposed_peek : IsComposed inner peek := by
  refine .look (fun p => .pure p.current) fun p q hStream => ?_
  rw [current, current, hStream]

theorem isComposed_accept
    (token : Token) :
    IsComposed inner (accept token) := by
  refine isComposed_peek.bind fun current => ?_
  split
  · exact .bind .take fun _ => .pure _
  · exact .pure _

theorem isComposed_expect
    (mark : Symbol) :
    IsComposed inner (expect mark) := by
  refine isComposed_peek.bind fun current => ?_
  split
  · exact .bind .take fun _ => .pure _
  · exact .unexpected _

theorem isComposed_acceptName : IsComposed inner acceptName := by
  refine isComposed_peek.bind fun current => ?_
  split
  · exact .bind .take fun _ => .pure _
  · exact .pure _

theorem isComposed_expectName
    (allowed : Expectation) :
    IsComposed inner (expectName allowed) := by
  refine isComposed_peek.bind fun current => ?_
  split
  · exact .bind .take fun _ => .pure _
  · exact .unexpected _

theorem isComposed_expectValue : IsComposed inner expectValue := by
  refine isComposed_peek.bind fun current => ?_
  split
  · exact .bind .take fun _ => .pure _
  · exact .bind .take fun _ => .pure _
  · exact .unexpected _

------------------------------------------------------------
-- Mentions and Attributes
------------------------------------------------------------

theorem isComposed_nodeRef : IsComposed inner nodeRef := by
  refine (isComposed_expectName _).bind fun name => ?_
  refine (isComposed_accept _).bind fun hasPort => ?_
  split
  · refine (isComposed_expectName _).bind fun port => ?_
    refine (isComposed_accept _).bind fun hasCompass => ?_
    split
    · exact (isComposed_expectName _).bind fun _ => .pure _
    · exact .pure _
  · exact .pure _

theorem isComposed_listedAttribute :
    IsComposed inner listedAttribute := by
  refine isComposed_peek.bind fun current => ?_
  split
  · exact .pure _
  · refine (isComposed_expectName _).bind fun name => ?_
    refine (isComposed_expect _).bind fun _ => ?_
    refine isComposed_expectValue.bind fun value => ?_
    refine (isComposed_accept _).bind fun _ => ?_
    exact (isComposed_accept _).bind fun _ => .pure _

theorem isComposed_attributeList :
    IsComposed inner attributeList := by
  refine (isComposed_expect _).bind fun _ => ?_
  refine isComposed_listedAttribute.within fun _ => ?_
  exact (isComposed_expect _).bind fun _ => .pure _

theorem isComposed_anotherList : IsComposed inner anotherList := by
  refine isComposed_peek.bind fun current => ?_
  split
  · exact isComposed_attributeList.bind fun _ => .pure _
  · exact .pure _

theorem isComposed_attributeLists :
    IsComposed inner attributeLists := by
  refine isComposed_attributeList.bind fun first => ?_
  exact isComposed_anotherList.within fun _ => .pure _

theorem isComposed_optionalLists :
    IsComposed inner optionalLists := by
  refine isComposed_peek.bind fun current => ?_
  split
  · exact isComposed_attributeLists
  · exact .pure _

theorem isComposed_assignment
    (ref : NodeRef) :
    IsComposed inner (assignment ref) := by
  unfold assignment
  split
  · exact .portAssigned
  · refine (isComposed_expect _).bind fun _ => ?_
    exact isComposed_expectValue.bind fun _ => .pure _

------------------------------------------------------------
-- Statements
------------------------------------------------------------

theorem isComposed_subgraph : IsComposed inner (subgraph inner) := by
  refine (isComposed_accept _).bind fun hasKeyword => ?_
  split
  · refine isComposed_acceptName.bind fun name => ?_
    exact .block fun _ => .pure _
  · exact .block fun _ => .pure _

theorem isComposed_endpoint : IsComposed inner (endpoint inner) := by
  refine isComposed_peek.bind fun current => ?_
  split
  · exact isComposed_nodeRef.bind fun _ => .pure _
  · exact isComposed_subgraph.bind fun _ => .pure _
  · exact isComposed_subgraph.bind fun _ => .pure _
  · exact .unexpected _

theorem isComposed_edgeStep : IsComposed inner (edgeStep inner) := by
  refine isComposed_peek.bind fun current => ?_
  split
  · exact .pure _
  · refine .look (fun p => ?_) fun p q hStream => ?_
    · refine .bind .take fun _ => ?_
      exact isComposed_endpoint.bind fun _ => .pure _
    · rw [hStream]

theorem isComposed_edgeStmt
    (tail : Endpoint) :
    IsComposed inner (edgeStmt inner tail) := by
  refine isComposed_edgeStep.within fun steps => ?_
  exact isComposed_optionalLists.bind fun _ => .pure _

theorem isComposed_namedStmt :
    IsComposed inner (namedStmt inner) := by
  refine isComposed_nodeRef.bind fun ref => ?_
  refine isComposed_peek.bind fun current => ?_
  split
  · exact isComposed_edgeStmt _
  · exact isComposed_edgeStmt _
  · exact isComposed_assignment _
  · exact isComposed_optionalLists.bind fun _ => .pure _

theorem isComposed_subgraphStmt :
    IsComposed inner (subgraphStmt inner) := by
  refine isComposed_subgraph.bind fun tree => ?_
  refine isComposed_peek.bind fun current => ?_
  split
  · exact isComposed_edgeStmt _
  · exact .pure _

theorem isComposed_defaultsStmt
    (kind : EntityKind) :
    IsComposed inner (defaultsStmt kind) :=
  .bind .take fun _ =>
    isComposed_attributeLists.bind fun _ => .pure _

theorem isComposed_stmt : IsComposed inner (stmt inner) := by
  refine isComposed_peek.bind fun current => ?_
  split
  · exact isComposed_namedStmt
  · exact isComposed_subgraphStmt
  · exact isComposed_subgraphStmt
  · exact isComposed_defaultsStmt _
  · exact isComposed_defaultsStmt _
  · exact isComposed_defaultsStmt _
  · exact .unexpected _

end

------------------------------------------------------------
-- Graphs
------------------------------------------------------------

theorem isComposed_graphKind
    {inner : Step (List Stmt)} :
    IsComposed inner graphKind := by
  refine isComposed_peek.bind fun current => ?_
  split
  · exact .bind .take fun _ => .pure _
  · exact .bind .take fun _ => .pure _
  · exact .unexpected _

theorem isComposed_graph : IsComposed wholeBlock graph := by
  refine (isComposed_accept _).bind fun strict => ?_
  refine isComposed_graphKind.bind fun directed => ?_
  refine isComposed_acceptName.bind fun name => ?_
  exact .block fun _ => .pure _

theorem isComposed_anotherGraph :
    IsComposed wholeBlock anotherGraph := by
  refine isComposed_peek.bind fun current => ?_
  split
  · exact .pure _
  · exact isComposed_graph.bind fun _ => .pure _

/- All that a file does behind its first token. -/
theorem isComposed_graphs :
    IsComposed wholeBlock
      (do
        let graphs ← many anotherGraph (← get).bound
        if graphs.isEmpty then
          unexpected .header
        else
          return graphs) := by
  refine isComposed_anotherGraph.within fun graphs => ?_
  split
  · exact .unexpected _
  · exact .pure _

theorem isComposed_file : IsComposed wholeBlock file :=
  .bind .take fun _ => isComposed_graphs

end Parser

end DotLang
