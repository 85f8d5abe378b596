import DotLang.Proofs.Dot.Layout
import DotLang.Proofs.Grammar.Acceptance
import Mathlib.Data.List.Forall2

/-
  This file proves that the text of a graph is accepted, and
  which statements the parser gives for it.

  The statements are known up to the places of their edge
  operators.

  Key definitions include:
    * `Registry.IsBodyOf`
    * `Registry.IsDeclOf`

  Key theorems include:
    * `Registry.accepts_toDot`
-/

------------------------------------------------------------
-- Statements of a Graph
------------------------------------------------------------

namespace DotLang

namespace Registry

variable {F : Factory}

/- The statement of a node in a graph. -/
def nodeStmt
    (r : Registry F)
    (g : GraphId)
    (n : NodeId) : Stmt :=
  .node ⟨(r.node n).name, none⟩
    (if (r.node n).owner = g then
      (r.node n).attributes.entries
    else
      [])

/- The statement is that of an edge, wherever it stands. -/
def IsEdgeStmt
    (r : Registry F)
    (directed : Bool)
    (e : EdgeId)
    (stmt : Stmt) : Prop :=
  ∃ location,
    stmt =
      .edge (.node ⟨(r.node (r.edge e).tail).name, none⟩)
        [.mk (.ofDirected directed) location
          (.node ⟨(r.node (r.edge e).head).name, none⟩)]
        (r.edge e).attributes.entries

/- The statements are those of a graph, down to a depth. -/
def IsBodyOf (r : Registry F) : Nat → GraphId → List Stmt → Prop
| 0, _, _ => False
| depth + 1, g, body =>
    ∃ children edges,
      body =
          (r.graph g).attributes.entries.map Stmt.assign ++
            ((r.visibleNodes g).map (r.nodeStmt g) ++
              (children ++
                ((r.nestedNodes g).map (r.nodeStmt g) ++ edges))) ∧
        List.Forall₂
          (fun c stmt =>
            ∃ inner,
              stmt = .subgraph (r.graph c).name inner ∧
                r.IsBodyOf depth c inner)
          (r.graph g).children children ∧
        List.Forall₂ (r.IsEdgeStmt (r.graph g).directed)
          (r.graph g).edges edges

/- The declaration is that of a top level graph. -/
structure IsDeclOf
    (r : Registry F)
    (g : GraphId)
    (decl : GraphDecl) : Prop where
  name : decl.name = (r.graph g).name
  strict : decl.strict = (r.graph g).strict
  directed : decl.directed = (r.graph g).directed
  body : r.IsBodyOf r.graphs.size g decl.body

end Registry

------------------------------------------------------------
-- Derivations of Parts
------------------------------------------------------------

/- The first token has a place, wherever that is. -/
theorem exists_of_tokens_cons
    {ts : List Located}
    {token : Token}
    {tokens : List Token}
    (h : ts.map Located.token = token :: tokens) :
    ∃ location rest,
      ts = ⟨token, location⟩ :: rest ∧
        rest.map Located.token = tokens := by
  rcases List.map_eq_cons_iff.mp h with ⟨t, rest, rfl, rfl, hRest⟩
  exact ⟨t.location, rest, rfl, hRest⟩

/- Of derivations of a kind, one derives tokens like these. -/
def Derivable
    {δ : Type}
    (derived : δ → List Located)
    (tokens : List Token)
    (Meaning : δ → Prop) : Prop :=
  ∀ ts : List Located,
    ts.map Located.token = tokens →
      ∃ d, derived d = ts ∧ Meaning d

theorem valueToken_eq
    (value : Value)
    (location : Location) :
    valueToken ⟨value, location⟩ = ⟨value.token, location⟩ := by
  cases value <;> rfl

theorem derivable_attribute
    (a : Attribute)
    (comma : Bool) :
    Derivable AttrTree.tokens
      (a.tokens ++ if comma then [.symbol .comma] else [])
      fun d => d.attr = a := by
  intro ts hTs
  rcases exists_of_tokens_cons hTs with ⟨name, _, rfl, hEqual⟩
  rcases exists_of_tokens_cons hEqual with ⟨equal, _, rfl, hValue⟩
  rcases exists_of_tokens_cons hValue with ⟨value, _, rfl, hComma⟩
  have hToken := valueToken_eq a.value value
  cases comma with
  | false =>
      rw [List.map_eq_nil_iff.mp hComma]
      refine ⟨⟨⟨a.name, name⟩, equal, ⟨a.value, value⟩, none, none⟩,
        ?_, rfl⟩
      simp [AttrTree.tokens, hToken, nameToken, Symbol.located]
  | true =>
      rcases exists_of_tokens_cons hComma with ⟨comma, _, rfl, hEnd⟩
      rw [List.map_eq_nil_iff.mp hEnd]
      refine ⟨⟨⟨a.name, name⟩, equal, ⟨a.value, value⟩, none,
        some comma⟩, ?_, rfl⟩
      simp [AttrTree.tokens, hToken, nameToken, Symbol.located]

theorem derivable_comma
    (entries : List Attribute) :
    Derivable (fun ds : List AttrTree => ds.flatMap AttrTree.tokens)
      (commaTokens entries) fun ds =>
        ds.map AttrTree.attr = entries := by
  fun_induction commaTokens entries with
  | case1 =>
      intro ts hTs
      rw [List.map_eq_nil_iff.mp hTs]
      exact ⟨[], rfl, rfl⟩
  | case2 a =>
      intro ts hTs
      rcases derivable_attribute a false ts (by simpa using hTs) with
        ⟨d, hd, hAttr⟩
      exact ⟨[d], by simpa using hd, by simpa using hAttr⟩
  | case3 a rest hRest ih =>
      intro ts hTs
      rw [show a.tokens ++ .symbol .comma :: commaTokens rest =
        (a.tokens ++ [.symbol .comma]) ++ commaTokens rest by simp]
        at hTs
      rcases List.map_eq_append_iff.mp hTs with
        ⟨first, more, rfl, hFirst, hMore⟩
      rcases derivable_attribute a true first hFirst with
        ⟨d, hd, hAttr⟩
      rcases ih more hMore with ⟨ds, hds, hAttrs⟩
      refine ⟨d :: ds, ?_, ?_⟩
      · exact congrArg₂ (· ++ ·) hd hds
      · simp [hAttr, hAttrs]

theorem derivable_suffix
    (t : AttributeTable) :
    Derivable (fun ds : List ListTree => ds.flatMap ListTree.tokens)
      t.suffixTokens fun ds =>
        ds.flatMap ListTree.attributes = t.entries := by
  intro ts hTs
  unfold AttributeTable.suffixTokens at hTs
  by_cases hEmpty : t.isEmpty = true
  · rw [if_pos hEmpty] at hTs
    rw [List.map_eq_nil_iff.mp hTs]
    refine ⟨[], rfl, ?_⟩
    simpa [AttributeTable.isEmpty] using Eq.symm (by
      simpa [AttributeTable.isEmpty] using hEmpty : t.entries = [])
  · rw [if_neg hEmpty] at hTs
    rcases exists_of_tokens_cons hTs with ⟨opening, _, rfl, hRest⟩
    rcases List.map_eq_append_iff.mp hRest with
      ⟨inside, close, rfl, hInside, hClose⟩
    rcases exists_of_tokens_cons hClose with ⟨closing, _, rfl, hEnd⟩
    rw [List.map_eq_nil_iff.mp hEnd]
    rcases derivable_comma t.entries inside hInside with
      ⟨ds, hds, hAttrs⟩
    refine ⟨[⟨opening, ds, closing⟩], ?_, ?_⟩
    · have hInner : ds.flatMap AttrTree.tokens = inside := hds
      simp [ListTree.tokens, hInner, Symbol.located]
    · simpa [ListTree.attributes] using hAttrs

------------------------------------------------------------
-- Derivations of Statements
------------------------------------------------------------

/-
  The tokens derive a statement in front of those that follow,
  with the semicolon behind it, if there is one.
-/
def DerivesStmt
    (tokens : List Token)
    (Meaning : Stmt → Prop) : Prop :=
  ∀ (ts : List Located) (rest : BodyTree),
    ts.map Located.token = tokens →
      ∃ (d : BodyTree) (stmt : Stmt),
        d.tokens = ts ++ rest.tokens ∧
          d.stmts = stmt :: rest.stmts ∧ Meaning stmt

/- A statement with a semicolon. -/
theorem Derivable.stmt
    {tokens : List Token}
    (Meaning : Stmt → Prop)
    (h :
      Derivable StmtTree.tokens tokens fun d => Meaning d.stmt) :
    DerivesStmt (tokens ++ [.symbol .semicolon]) Meaning := by
  intro ts rest hTs
  rcases List.map_eq_append_iff.mp hTs with
    ⟨first, last, rfl, hFirst, hLast⟩
  rcases exists_of_tokens_cons hLast with ⟨location, _, rfl, hEnd⟩
  rw [List.map_eq_nil_iff.mp hEnd]
  rcases h first hFirst with ⟨d, rfl, hMeaning⟩
  refine ⟨.stmt d (.semicolon location rest), d.stmt, ?_, rfl,
    hMeaning⟩
  simp [BodyTree.tokens, Symbol.located]

/- Statements in a row. -/
theorem derivesStmt_flatMap
    {α : Type}
    {items : List α}
    {tokens : α → List Token}
    {Meaning : α → Stmt → Prop}
    (h : ∀ x ∈ items, DerivesStmt (tokens x) (Meaning x))
    (ts : List Located)
    (rest : BodyTree)
    (hTs : ts.map Located.token = items.flatMap tokens) :
    ∃ (d : BodyTree) (stmts : List Stmt),
      d.tokens = ts ++ rest.tokens ∧
        d.stmts = stmts ++ rest.stmts ∧
        List.Forall₂ Meaning items stmts := by
  induction items generalizing ts with
  | nil =>
      rw [List.map_eq_nil_iff.mp hTs]
      exact ⟨rest, [], rfl, rfl, .nil⟩
  | cons x items ih =>
      rcases List.map_eq_append_iff.mp hTs with
        ⟨first, more, rfl, hFirst, hMore⟩
      rcases ih (fun y hy => h y (List.mem_cons_of_mem _ hy)) more
        hMore with ⟨behind, stmts, hTokens, hStmts, hAll⟩
      rcases h x List.mem_cons_self first behind hFirst with
        ⟨d, stmt, hTokens', hStmts', hMeaning⟩
      refine ⟨d, stmt :: stmts, ?_, ?_, .cons hMeaning hAll⟩
      · rw [hTokens', hTokens, List.append_assoc]
      · rw [hStmts', hStmts, List.cons_append]

/- Statements that are known are those of their items. -/
theorem eq_map_of_forall₂
    {α β : Type}
    {f : α → β}
    {items : List α}
    {results : List β}
    (h : List.Forall₂ (fun x y => y = f x) items results) :
    results = items.map f := by
  induction h with
  | nil => rfl
  | cons hEq _ ih => rw [hEq, ih, List.map_cons]

theorem derivesStmt_assign
    (a : Attribute) :
    DerivesStmt (a.tokens ++ [.symbol .semicolon])
      fun stmt => stmt = .assign a := by
  apply Derivable.stmt (· = .assign a)
  intro ts hTs
  rcases exists_of_tokens_cons hTs with ⟨name, _, rfl, hEqual⟩
  rcases exists_of_tokens_cons hEqual with ⟨equal, _, rfl, hValue⟩
  rcases exists_of_tokens_cons hValue with ⟨value, _, rfl, hEnd⟩
  rw [List.map_eq_nil_iff.mp hEnd]
  refine ⟨.assign ⟨a.name, name⟩ equal ⟨a.value, value⟩, ?_, rfl⟩
  simp [StmtTree.tokens, valueToken_eq, nameToken, Symbol.located]

namespace Registry

variable {F : Factory} {r : Registry F}

theorem derivesStmt_node
    (r : Registry F)
    (g : GraphId)
    (n : NodeId) :
    DerivesStmt (r.nodeTokens g n)
      fun stmt => stmt = r.nodeStmt g n := by
  have hStmt :
      Derivable StmtTree.tokens
        (.identifier (r.node n).name ::
          if (r.node n).owner = g then
            (r.node n).attributes.suffixTokens
          else
            [])
        fun d => d.stmt = r.nodeStmt g n := by
    intro ts hTs
    rcases exists_of_tokens_cons hTs with ⟨name, rest, rfl, hRest⟩
    unfold nodeStmt
    by_cases hOwner : (r.node n).owner = g
    · rw [if_pos hOwner] at hRest ⊢
      rcases derivable_suffix _ rest hRest with ⟨ds, hds, hAttrs⟩
      refine ⟨.node ⟨⟨(r.node n).name, name⟩, none⟩ ds, ?_, ?_⟩
      · exact congrArg (_ :: ·) hds
      · simp [StmtTree.stmt, hAttrs, RefTree.ref]
    · rw [if_neg hOwner] at hRest ⊢
      rw [List.map_eq_nil_iff.mp hRest]
      exact ⟨.node ⟨⟨(r.node n).name, name⟩, none⟩ [], rfl, rfl⟩
  exact Derivable.stmt (· = r.nodeStmt g n) hStmt

theorem derivesStmt_edge
    (r : Registry F)
    (directed : Bool)
    (e : EdgeId) :
    DerivesStmt (r.edgeTokens directed e)
      (r.IsEdgeStmt directed e) := by
  have hStmt :
      Derivable StmtTree.tokens
        ([.identifier (r.node (r.edge e).tail).name,
            (Arrow.ofDirected directed).token,
            .identifier (r.node (r.edge e).head).name] ++
          (r.edge e).attributes.suffixTokens)
        fun d => r.IsEdgeStmt directed e d.stmt := by
    intro ts hTs
    rcases exists_of_tokens_cons hTs with ⟨tail, _, rfl, hArrow⟩
    rcases exists_of_tokens_cons hArrow with ⟨arrow, _, rfl, hHead⟩
    rcases exists_of_tokens_cons hHead with ⟨head, rest, rfl, hRest⟩
    rcases derivable_suffix _ rest hRest with ⟨ds, hds, hAttrs⟩
    have hToken :
        arrowToken ⟨.ofDirected directed, arrow⟩ =
          ⟨(Arrow.ofDirected directed).token, arrow⟩ := by
      cases directed <;> rfl
    refine ⟨.edge
      (.node ⟨⟨(r.node (r.edge e).tail).name, tail⟩, none⟩)
      (.one ⟨.ofDirected directed, arrow⟩
        (.node ⟨⟨(r.node (r.edge e).head).name, head⟩, none⟩)) ds,
      ?_, arrow, ?_⟩
    · have hLists : ds.flatMap ListTree.tokens = rest := hds
      simp [StmtTree.tokens, EndTree.tokens, StepsTree.tokens,
        RefTree.tokens, nameToken, hLists, hToken]
    · simp [StmtTree.stmt, EndTree.endpoint, StepsTree.steps, hAttrs,
        RefTree.ref]
  have hAll := Derivable.stmt (r.IsEdgeStmt directed e) hStmt
  rwa [List.append_assoc] at hAll

------------------------------------------------------------
-- Derivations of Graphs
------------------------------------------------------------

/- A subgraph with a name or without one. -/
theorem derivesStmt_subgraph
    {g : GraphId}
    {tokens : List Token}
    {Meaning : List Stmt → Prop}
    (hParent : (r.graph g).isRoot = false)
    (h :
      Derivable BodyTree.tokens tokens fun d => Meaning d.stmts) :
    DerivesStmt ((r.graph g).headerTokens ++ tokens) fun stmt =>
      ∃ inner,
        stmt = .subgraph (r.graph g).name inner ∧
          Meaning inner := by
  intro ts rest hTs
  rcases List.map_eq_append_iff.mp hTs with
    ⟨header, more, rfl, hHeader, hMore⟩
  rcases h more hMore with ⟨d, rfl, hMeaning⟩
  simp only [Graph.headerTokens, Graph.kindTokens, hParent,
    Bool.false_eq_true, if_false] at hHeader
  rcases exists_of_tokens_cons hHeader with
    ⟨keyword, _, rfl, hName⟩
  by_cases hEmpty : (r.graph g).name.isEmpty = true
  · rw [if_pos hEmpty] at hName
    rcases exists_of_tokens_cons hName with ⟨opening, _, rfl, hEnd⟩
    rw [List.map_eq_nil_iff.mp hEnd]
    have hEq : (r.graph g).name = "" := String.isEmpty_iff.mp hEmpty
    refine ⟨.stmt (.subgraph (.mk (some (keyword, none)) opening d))
      rest, _, ?_, rfl, d.stmts, ?_, hMeaning⟩
    · simp [BodyTree.tokens, StmtTree.tokens, SubgraphTree.tokens,
        keywordTokens, Keyword.located, Symbol.located]
    · rw [hEq]
      rfl
  · rw [if_neg hEmpty] at hName
    rcases exists_of_tokens_cons hName with ⟨name, _, rfl, hOpen⟩
    rcases exists_of_tokens_cons hOpen with ⟨opening, _, rfl, hEnd⟩
    rw [List.map_eq_nil_iff.mp hEnd]
    refine ⟨.stmt (.subgraph
      (.mk (some (keyword, some ⟨(r.graph g).name, name⟩)) opening
        d)) rest, _, ?_,
      rfl, d.stmts, rfl, hMeaning⟩
    simp [BodyTree.tokens, StmtTree.tokens, SubgraphTree.tokens,
      keywordTokens, Keyword.located, Symbol.located, nameToken]

/- The tokens of a graph behind its first line. -/
def bodyTokens (r : Registry F) (depth : Nat) (g : GraphId) :
    List Token :=
  (r.graph g).attributes.entries.flatMap
      (fun a => a.tokens ++ [.symbol .semicolon]) ++
    ((r.visibleNodes g).flatMap (r.nodeTokens g) ++
      ((r.graph g).children.flatMap (r.graphTokens depth) ++
        ((r.nestedNodes g).flatMap (r.nodeTokens g) ++
          ((r.graph g).edges.flatMap
              (r.edgeTokens (r.graph g).directed) ++
            [.symbol .closeBrace]))))

/- What the header of a graph says, with or without `strict`. -/
theorem exists_header
    (r : Registry F)
    (g : GraphId)
    (strict : Option Location)
    {ts : List Located}
    (hTs :
      ts.map Located.token =
        .keyword (if (r.graph g).directed then .digraph else .graph) ::
          ((if (r.graph g).name.isEmpty then
              []
            else
              [.identifier (r.graph g).name]) ++
            [.symbol .openBrace])) :
    ∃ d : HeaderTree,
      d.tokens =
          (strict.map (Keyword.located .strict)).toList ++ ts ∧
        d.strict = strict ∧
        (d.name.map Placed.value).getD "" = (r.graph g).name ∧
        d.directed.value = (r.graph g).directed := by
  rcases exists_of_tokens_cons hTs with ⟨keyword, _, rfl, hName⟩
  have hToken :
      directedToken ⟨(r.graph g).directed, keyword⟩ =
        ⟨.keyword
          (if (r.graph g).directed then .digraph else .graph),
          keyword⟩ := by
    cases (r.graph g).directed <;> rfl
  by_cases hEmpty : (r.graph g).name.isEmpty = true
  · rw [if_pos hEmpty] at hName
    rcases exists_of_tokens_cons hName with ⟨opening, _, rfl, hEnd⟩
    rw [List.map_eq_nil_iff.mp hEnd]
    refine ⟨⟨strict, ⟨_, keyword⟩, none, opening⟩, ?_, rfl,
      (String.isEmpty_iff.mp hEmpty).symm, rfl⟩
    simp [HeaderTree.tokens, hToken, Symbol.located]
  · rw [if_neg hEmpty] at hName
    rcases exists_of_tokens_cons hName with ⟨name, _, rfl, hOpen⟩
    rcases exists_of_tokens_cons hOpen with ⟨opening, _, rfl, hEnd⟩
    rw [List.map_eq_nil_iff.mp hEnd]
    refine ⟨⟨strict, ⟨_, keyword⟩,
      some ⟨(r.graph g).name, name⟩, opening⟩, ?_, rfl, rfl, rfl⟩
    simp [HeaderTree.tokens, hToken, Symbol.located, nameToken]

/- The tokens of the first line of a top level graph. -/
theorem derivable_header
    {g : GraphId}
    (hParent : (r.graph g).parent = none) :
    Derivable HeaderTree.tokens (r.graph g).headerTokens fun d =>
      ∀ body,
        (d.decl body).name = (r.graph g).name ∧
          (d.decl body).strict = (r.graph g).strict ∧
          (d.decl body).directed = (r.graph g).directed := by
  intro ts hTs
  have hRoot : (r.graph g).isRoot = true := by
    simp [Graph.isRoot, hParent]
  rw [Graph.headerTokens, Graph.kindTokens, if_pos hRoot] at hTs
  by_cases hStrict : (r.graph g).strict = true
  · rw [if_pos hStrict] at hTs
    rcases exists_of_tokens_cons hTs with ⟨strict, _, rfl, hRest⟩
    rcases exists_header r g (some strict) hRest with
      ⟨d, hTokens, hFlag, hName, hDirected⟩
    refine ⟨d, hTokens, fun body => ⟨hName, ?_, hDirected⟩⟩
    rw [HeaderTree.decl, hFlag, hStrict]
    rfl
  · rw [if_neg hStrict] at hTs
    rcases exists_header r g none hTs with
      ⟨d, hTokens, hFlag, hName, hDirected⟩
    refine ⟨d, hTokens, fun body => ⟨hName, ?_, hDirected⟩⟩
    rw [HeaderTree.decl, hFlag, Bool.eq_false_iff.mpr hStrict]
    rfl

/-
  The tokens of a graph derive its statements, given that those
  of its children do.
-/
theorem derivable_bodyTokens
    {depth : Nat}
    {g : GraphId}
    (hChildren :
      ∀ c ∈ (r.graph g).children,
        DerivesStmt (r.graphTokens depth c) fun stmt =>
          ∃ inner,
            stmt = .subgraph (r.graph c).name inner ∧
              r.IsBodyOf depth c inner) :
    Derivable BodyTree.tokens (r.bodyTokens depth g) fun d =>
      r.IsBodyOf (depth + 1) g d.stmts := by
  intro ts hTs
  rcases List.map_eq_append_iff.mp hTs with
    ⟨first, _, rfl, hAssigns, hTs₁⟩
  rcases List.map_eq_append_iff.mp hTs₁ with
    ⟨second, _, rfl, hBefore, hTs₂⟩
  rcases List.map_eq_append_iff.mp hTs₂ with
    ⟨third, _, rfl, hInside, hTs₃⟩
  rcases List.map_eq_append_iff.mp hTs₃ with
    ⟨fourth, _, rfl, hBehind, hTs₄⟩
  rcases List.map_eq_append_iff.mp hTs₄ with
    ⟨fifth, _, rfl, hEdges, hTs₅⟩
  rcases exists_of_tokens_cons hTs₅ with ⟨closing, _, rfl, hEnd⟩
  rw [List.map_eq_nil_iff.mp hEnd]
  -- from the closing brace back to the first statement
  rcases derivesStmt_flatMap
    (fun e _ => derivesStmt_edge r (r.graph g).directed e)
    fifth (.close closing) hEdges with
    ⟨dEdges, edges, hTokens₅, hStmts₅, hAll₅⟩
  rcases derivesStmt_flatMap (fun n _ => derivesStmt_node r g n)
    fourth dEdges hBehind with
    ⟨dBehind, behind, hTokens₄, hStmts₄, hAll₄⟩
  rcases derivesStmt_flatMap hChildren third dBehind hInside with
    ⟨dInside, children, hTokens₃, hStmts₃, hAll₃⟩
  rcases derivesStmt_flatMap (fun n _ => derivesStmt_node r g n)
    second dInside hBefore with
    ⟨dBefore, before, hTokens₂, hStmts₂, hAll₂⟩
  rcases derivesStmt_flatMap (fun a _ => derivesStmt_assign a)
    first dBefore hAssigns with
    ⟨d, assigns, hTokens₁, hStmts₁, hAll₁⟩
  refine ⟨d, ?_, children, edges, ?_, hAll₃, hAll₅⟩
  · rw [hTokens₁, hTokens₂, hTokens₃, hTokens₄, hTokens₅]
    rfl
  · rw [hStmts₁, hStmts₂, hStmts₃, hStmts₄, hStmts₅,
      eq_map_of_forall₂ hAll₁, eq_map_of_forall₂ hAll₂,
      eq_map_of_forall₂ hAll₄]
    simp [BodyTree.stmts]

theorem graphTokens_succ
    (r : Registry F)
    (depth : Nat)
    (g : GraphId) :
    r.graphTokens (depth + 1) g =
      (r.graph g).headerTokens ++ r.bodyTokens depth g :=
  rfl

/- A child has its tokens, however deep the graphs in it are. -/
theorem IsForest.derivesStmt_child
    (hForest : r.IsForest)
    (depth : Nat) :
    ∀ {g c : GraphId},
      (r.graph c).parent = some g →
        r.graphs.size ≤ c.index + depth →
        DerivesStmt (r.graphTokens depth c) fun stmt =>
          ∃ inner,
            stmt = .subgraph (r.graph c).name inner ∧
              r.IsBodyOf depth c inner := by
  induction depth with
  | zero =>
      intro g c hParent hDepth
      have hc : c.index < r.graphs.size := hasGraph_of_parent hParent
      omega
  | succ depth ih =>
      intro g c hParent hDepth
      have hRoot : (r.graph c).isRoot = false := by
        simp [Graph.isRoot, hParent]
      rw [graphTokens_succ]
      apply derivesStmt_subgraph hRoot
      apply derivable_bodyTokens
      intro d hd
      have hUp := (hForest.mem_children
        (hasGraph_of_parent hParent)).mp hd
      have hLt := hForest.parent_lt hUp
      exact ih hUp (by omega)

/- The tokens of a top level graph derive a declaration of it. -/
theorem IsForest.derivable_root
    (hForest : r.IsForest)
    {g : GraphId}
    (hg : g ∈ r.roots) :
    Derivable GraphTree.tokens (r.graphTokens r.graphs.size g)
      fun d => r.IsDeclOf g d.decl := by
  rcases hForest.mem_roots.mp hg with ⟨hg, hParent⟩
  have hSize : 0 < r.graphs.size := Nat.zero_lt_of_lt hg
  obtain ⟨depth, hDepth⟩ : ∃ depth, r.graphs.size = depth + 1 :=
    ⟨r.graphs.size - 1, by omega⟩
  have hBody :
      Derivable BodyTree.tokens (r.bodyTokens depth g) fun d =>
        r.IsBodyOf r.graphs.size g d.stmts := by
    rw [hDepth]
    apply derivable_bodyTokens
    intro c hc
    have hUp := (hForest.mem_children hg).mp hc
    have hLt := hForest.parent_lt hUp
    exact hForest.derivesStmt_child depth hUp (by omega)
  intro ts hTs
  rw [hDepth, graphTokens_succ] at hTs
  rcases List.map_eq_append_iff.mp hTs with
    ⟨header, body, rfl, hHeader, hInside⟩
  rcases derivable_header hParent header hHeader with
    ⟨d, rfl, hDecl⟩
  rcases hBody body hInside with ⟨inside, rfl, hIs⟩
  rcases hDecl inside.stmts with ⟨hName, hStrict, hDirected⟩
  exact ⟨⟨d, inside⟩, rfl, hName, hStrict, hDirected, hIs⟩

/-
  The text of a top level graph is accepted, and the parser
  gives a declaration of the graph.
-/
theorem IsForest.accepts_toDot
    (hForest : r.IsForest)
    {g : GraphId}
    (hg : g ∈ r.roots)
    (hReadable : ∀ h ∈ r.extent g, r.IsReadable h)
    (options : Options) :
    ∃ decl,
      r.IsDeclOf g decl ∧
        Parser.Accepts (r.toDot g).toList options [decl] := by
  have hGraph := (hForest.mem_roots.mp hg).1
  rw [hForest.extent_eq_preorder hGraph] at hReadable
  rcases hForest.derivable_root hg _ (tokens_toDot hReadable) with
    ⟨d, hTokens, hDecl⟩
  refine ⟨d.decl, hDecl, ?_⟩
  apply Parser.accepts_of_isDerivation (d := ⟨d, []⟩) options
  simp [Parser.IsDerivation, FileTree.tokens, hTokens]

end Registry

end DotLang
