import DotLang.Proofs.Dot.Run

/-
  This file proves that the text of a graph makes the graph
  again, together with the graphs inside it.

  A subgraph is opened, filled by its own statements and closed.
  It leaves the attributes and members of all graphs that were
  there before as they were.

  Key definitions include:
    * `Numbering.IsDone`
    * `Numbering.Copies`
    * `Registry.IsNamed`

  Key theorems include:
    * `Numbering.leads_subgraph`
    * `Numbering.leads_children`
    * `Numbering.copies_graph`
-/

------------------------------------------------------------
-- Opening Subgraphs
------------------------------------------------------------

namespace DotLang

open Registry

namespace Numbering

variable
  {F H : Factory}
  {IsGood : Value → Prop}
  {φ : Numbering}
  {r : Registry F}
  {root g : GraphId}

theorem IsCopying.withScope
    {s : Registry H}
    (hCopy : φ.IsCopying r root s)
    (hPlan : φ.IsPlan IsGood r root)
    (scope : List GraphId) :
    φ.IsCopying r root { s with scope := scope } := by
  have hAside :
      Change (fun _ => True) s { s with scope := scope } :=
    .aside _ _ rfl rfl rfl rfl
  exact hCopy.extend hPlan (hAside.isBuilt hCopy.isBuilt)
    (fun _ hx => .inl ⟨hx, rfl⟩) (fun _ hx => .inl ⟨hx, rfl⟩)
    fun _ hx => .inl ⟨hx, rfl⟩

/- A child that is not made yet is not found by its name. -/
theorem IsCopying.findChild?_eq_none
    {s : Registry H}
    (hCopy : φ.IsCopying r root s)
    (hPlan : φ.IsPlan IsGood r root)
    (hg : g ∈ r.extent root)
    (hs : s.HasGraph (φ.graph g))
    {c : GraphId}
    (hParent : (r.graph c).parent = some g)
    (hNew : ¬ s.HasGraph (φ.graph c))
    (hName : (r.graph c).name ≠ "") :
    s.findChild? (φ.graph g) (r.graph c).name = none := by
  have hForest' := hCopy.isBuilt.isForest
  apply findChild?_eq_none_iff.mpr
  intro x hx hEq
  have hUp := (hForest'.mem_children hs).mp hx
  have hHas := hasGraph_of_parent hUp
  rcases hCopy.exists_graph hHas with ⟨d, hd, rfl⟩
  have hParent' := (hCopy.parent_iff hPlan hd hg hHas).mp hUp
  have hSame : (s.graph (φ.graph d)).name = (r.graph d).name :=
    IsCopying.view_eq Graph.name (fun _ => rfl) hCopy hd hHas
  rw [hSame] at hEq
  rw [hPlan.isBuilt.isUniform.distinct hParent' hParent hEq
    (by rwa [hEq])] at hHas
  exact hNew hHas

/- The registry in which the text of a subgraph is run. -/
def opened
    (s : Registry H)
    (scope : GraphId)
    (name : String) : Registry H :=
  (s.addGraph (.newSubgraph name (s.graph scope))
    (some scope)).2.pushScope s.nextGraph

theorem hasGraph_opened
    {s : Registry H}
    {scope : GraphId}
    {name : String}
    (x : GraphId) :
    (opened s scope name).HasGraph x ↔
      s.HasGraph x ∨ x = s.nextGraph :=
  hasGraph_addGraph x

/- Opening a child changes only the children of a graph. -/
theorem view_opened
    {β : Type}
    (view : Graph → β)
    (hChildren :
      ∀ (graph : Graph) (children : List GraphId),
        view { graph with children := children } = view graph)
    {s : Registry H}
    {scope : GraphId}
    {name : String}
    (hScope : s.HasGraph scope)
    {x : GraphId}
    (hx : s.HasGraph x) :
    view ((opened s scope name).graph x) = view (s.graph x) := by
  apply view_addGraph_of_hasGraph view _ hChildren hx
  intro g hEq
  rwa [← Option.some.inj hEq]

/- What is opened is the copy of a child without its contents. -/
theorem graph_opened_next
    (hPlan : φ.IsPlan IsGood r root)
    (hg : g ∈ r.extent root)
    {s : Registry H}
    (hCopy : φ.IsCopying r root s)
    (hScope : s.HasGraph (φ.graph g))
    {c : GraphId}
    (hParent : (r.graph c).parent = some g) :
    (opened s (φ.graph g) (r.graph c).name).graph s.nextGraph =
      φ.copyGraph (r.graph c) := by
  have hUniform := hPlan.isBuilt.isUniform
  have hView :
      ∀ {β : Type} (view : Graph → β),
        (∀ graph : Graph, view graph.outline = view graph) →
          view (s.graph (φ.graph g)) =
            view (φ.copyGraph (r.graph g)) :=
    fun view hOutline => IsCopying.view_eq view hOutline hCopy hg
      hScope
  have hNext :
      (opened s (φ.graph g) (r.graph c).name).graph s.nextGraph =
        { Graph.newSubgraph (r.graph c).name
            (s.graph (φ.graph g)) with
          parent := some (φ.graph g) } := by
    apply graph_addGraph_next
    intro h hEq
    rwa [← Option.some.inj hEq]
  rw [hNext, Graph.newSubgraph,
    hView Graph.directed fun _ => rfl,
    hView Graph.strict fun _ => rfl,
    hView Graph.graphDefaults fun _ => rfl,
    hView Graph.nodeDefaults fun _ => rfl,
    hView Graph.edgeDefaults fun _ => rfl]
  simp [copyGraph, hParent, hUniform.directed hParent,
    hUniform.strict hParent]

/- A registry with a child that is just opened is still a copy. -/
theorem IsCopying.opened
    (hPlan : φ.IsPlan IsGood r root)
    (hg : g ∈ r.extent root)
    {s : Registry H}
    (hCopy : φ.IsCopying r root s)
    (hScope : s.HasGraph (φ.graph g))
    {c : GraphId}
    (hc : c ∈ r.extent root)
    (hParent : (r.graph c).parent = some g)
    (hNext : φ.graph c = s.nextGraph) :
    φ.IsCopying r root
      (opened s (φ.graph g) (r.graph c).name) := by
  have hNew : ¬ s.HasGraph (φ.graph c) :=
    fun hHas => hHas.ne_next hNext
  have hChange :
      Change (fun _ => True) s
        (s.addGraph (.newSubgraph (r.graph c).name
          (s.graph (φ.graph g))) (some (φ.graph g))).2 :=
    .child s (φ.graph g) _ hScope
      (hCopy.findChild?_eq_none hPlan hg hScope hParent hNew)
  have hAdded := hChange.isBuilt hCopy.isBuilt
  have hBuilt :
      IsBuilt (fun _ => True)
        (Numbering.opened s (φ.graph g) (r.graph c).name) := by
    refine Change.isBuilt ?_ hAdded
    exact .aside _ _ rfl rfl rfl rfl
  apply hCopy.extend hPlan hBuilt
  · intro x hx
    rcases (hasGraph_opened x).mp hx with hHas | rfl
    · exact .inl ⟨hHas,
        view_opened Graph.outline (fun _ _ => rfl) hScope hHas⟩
    · refine .inr ⟨c, hc, hNext, ?_⟩
      rw [graph_opened_next hPlan hg hCopy hScope hParent]
      rfl
  · exact fun _ hx => .inl ⟨hx, rfl⟩
  · exact fun _ hx => .inl ⟨hx, rfl⟩

/- A new child is opened without anything in it. -/
theorem leads_opened
    (hPlan : φ.IsPlan IsGood r root)
    (hg : g ∈ r.extent root)
    {s : Registry H}
    {t : AttributeTable}
    {ms : List NodeId}
    (hOpen : φ.IsOpen r root g t ms s)
    {c : GraphId}
    (hc : c ∈ r.extent root)
    (hParent : (r.graph c).parent = some g)
    (hNext : φ.graph c = s.nextGraph) :
    φ.Leads r root g s t ms 1 0 0
        (opened s (φ.graph g) (r.graph c).name) ∧
      φ.IsOpen r root c .empty []
        (opened s (φ.graph g) (r.graph c).name) := by
  have hScope := hOpen.hasGraph
  have hCopied :=
    hOpen.isCopying.opened hPlan hg hScope hc hParent hNext
  have hKeeps :
      ∀ {x},
        s.HasGraph x →
          ((opened s (φ.graph g) (r.graph c).name).graph
              x).contents =
            (s.graph x).contents :=
    fun hx => view_opened Graph.contents (fun _ _ => rfl) hScope hx
  constructor
  · exact
      { isCopying := hCopied
        contents := by
          rw [← hOpen.contents]
          exact hKeeps hScope
        keeps := fun hx _ => hKeeps hx
        graphs_size := by
          simp [opened, pushScope, addGraph, enterGraph, modifyGraph]
        nodes_size := rfl
        edges_size := rfl
        diagnostics := rfl }
  · exact
      { isCopying := hCopied
        hasGraph := by
          rw [hNext]
          exact (hasGraph_opened _).mpr (.inr rfl)
        contents := by
          rw [hNext]
          exact congrArg Graph.contents
            (graph_opened_next hPlan hg hOpen.isCopying hScope
              hParent) }

/- A subgraph that is closed leaves the graph around it as it was. -/
theorem Leads.close
    {s s' s'' : Registry H}
    {t t' : AttributeTable}
    {ms ms' : List NodeId}
    {c : GraphId}
    {i j k : Nat}
    (hPlan : φ.IsPlan IsGood r root)
    (hOpen : φ.IsOpen r root g t ms s)
    (hNext : φ.graph c = s.nextGraph)
    (hOpened : φ.Leads r root g s t ms 1 0 0 s')
    (hBody : φ.Leads r root c s' t' ms' i j k s'') :
    φ.Leads r root g s t ms (1 + i) j k s''.popScope where
  isCopying := hBody.isCopying.withScope hPlan _
  contents := by
    rw [← hOpened.contents]
    apply hBody.keeps (hOpened.hasGraph hOpen.hasGraph)
    rw [hNext]
    exact hOpen.hasGraph.ne_next
  keeps hx hNe := by
    rw [← hOpened.keeps hx hNe]
    apply hBody.keeps (hOpened.hasGraph hx)
    rw [hNext]
    exact hx.ne_next
  graphs_size := by
    have hSize := hBody.graphs_size
    rw [hOpened.graphs_size, Nat.add_assoc] at hSize
    exact hSize
  nodes_size := by
    have hSize := hBody.nodes_size
    rw [hOpened.nodes_size] at hSize
    exact hSize
  edges_size := by
    have hSize := hBody.edges_size
    rw [hOpened.edges_size] at hSize
    exact hSize
  diagnostics := hBody.diagnostics.trans hOpened.diagnostics

------------------------------------------------------------
-- Subgraphs
------------------------------------------------------------

/- The copy of a graph has the attributes and members it gets. -/
structure IsDone
    (φ : Numbering)
    (r : Registry F)
    (g : GraphId)
    (s : Registry H) : Prop where
  hasGraph : s.HasGraph (φ.graph g)
  contents :
    (s.graph (φ.graph g)).contents =
      ((r.graph g).attributes, (r.writtenNodes g).map φ.node)

theorem Leads.isDone
    {s s' : Registry H}
    {t : AttributeTable}
    {ms : List NodeId}
    {i j k : Nat}
    (hLeads : φ.Leads r root g s t ms i j k s')
    {h : GraphId}
    (hNe : φ.graph h ≠ φ.graph g)
    (hDone : φ.IsDone r h s) :
    φ.IsDone r h s' where
  hasGraph := hLeads.hasGraph hDone.hasGraph
  contents := by
    rw [hLeads.keeps hDone.hasGraph hNe]
    exact hDone.contents

/-
  Wherever the statements of a graph are run in a fresh copy of
  it, they make what belongs to the graph down to a depth.
-/
def Copies
    (φ : Numbering)
    (H : Factory)
    (r : Registry F)
    (root : GraphId)
    (depth : Nat)
    (g : GraphId) : Prop :=
  ∀ {b : Build H} {body : List Stmt},
    r.IsBodyOf depth g body →
      φ.IsOpen r root g .empty [] b.registry →
      (∀ h ∈ r.lineage g,
        h ≠ g →
          ∀ n ∈ (r.graph h).nodes,
            b.registry.HasNode (φ.node n)) →
      CountsFrom (fun h => (φ.graph h).index)
        b.registry.graphs.size (r.preorderWithin depth g).tail →
      CountsFrom (fun n => (φ.node n).index)
        b.registry.nodes.size
        (r.nodesOf (r.preorderWithin depth g)) →
      CountsFrom (fun e => (φ.edge e).index)
        b.registry.edges.size
        (r.edgesOf (r.postorderWithin depth g)) →
      φ.Leads r root g b.registry (r.graph g).attributes
          (r.writtenNodes g)
          (r.preorderWithin depth g).tail.length
          (r.nodesOf (r.preorderWithin depth g)).length
          (r.edgesOf (r.postorderWithin depth g)).length
          (runBody (φ.graph g) b body).registry ∧
        ∀ h ∈ r.preorderWithin depth g,
          φ.IsDone r h (runBody (φ.graph g) b body).registry

/- What is inside a child is another copy than that of its parent. -/
theorem IsPlan.ne_of_inside
    (hPlan : φ.IsPlan IsGood r root)
    (hg : g ∈ r.extent root)
    {c h : GraphId}
    (hParent : (r.graph c).parent = some g)
    (hh : h ∈ r.extent c) :
    h ∈ r.extent root ∧ φ.graph h ≠ φ.graph g := by
  have hForest := hPlan.isBuilt.isForest
  have hGraph := hPlan.hasGraph hg
  have hHas := hasGraph_of_parent hParent
  have hInside : h ∈ r.extent g := by
    rw [hForest.extent_eq hGraph]
    apply List.mem_cons_of_mem
    exact List.mem_flatMap.mpr
      ⟨c, (hForest.mem_children hGraph).mpr hParent, hh⟩
  have hIn := hForest.extent_subset hPlan.hasRoot hg hInside
  refine ⟨hIn, ?_⟩
  intro hEq
  have hSame := hPlan.graph_inj hIn hg hEq
  have hLe := hForest.index_le_of_mem_lineage
    (hPlan.hasGraph hIn) ((hForest.mem_extent hHas).mp hh).2
  have hLt := hForest.parent_lt hParent
  rw [hSame] at hLe
  omega

/- The statement of a subgraph makes the subgraph. -/
theorem leads_subgraph
    (hPlan : φ.IsPlan IsGood r root)
    (hg : g ∈ r.extent root)
    {b : Build H}
    {t : AttributeTable}
    {ms : List NodeId}
    (hOpen : φ.IsOpen r root g t ms b.registry)
    {c : GraphId}
    (hParent : (r.graph c).parent = some g)
    {depth : Nat}
    (hDepth : r.graphs.size ≤ c.index + depth)
    (hCopies : φ.Copies H r root depth c)
    (hMade :
      ∀ h ∈ r.lineage g,
        ∀ n ∈ (r.graph h).nodes, b.registry.HasNode (φ.node n))
    {inner : List Stmt}
    (hInner : r.IsBodyOf depth c inner)
    (hGraphs :
      CountsFrom (fun h => (φ.graph h).index)
        b.registry.graphs.size (r.preorderWithin depth c))
    (hNodes :
      CountsFrom (fun n => (φ.node n).index)
        b.registry.nodes.size
        (r.nodesOf (r.preorderWithin depth c)))
    (hEdges :
      CountsFrom (fun e => (φ.edge e).index)
        b.registry.edges.size
        (r.edgesOf (r.postorderWithin depth c))) :
    φ.Leads r root g b.registry t ms
        (r.preorderWithin depth c).length
        (r.nodesOf (r.preorderWithin depth c)).length
        (r.edgesOf (r.postorderWithin depth c)).length
        ((Stmt.subgraph (r.graph c).name inner).run
          (φ.graph g) b).registry ∧
      ∀ h ∈ r.preorderWithin depth c,
        φ.IsDone r h
          ((Stmt.subgraph (r.graph c).name inner).run
            (φ.graph g) b).registry := by
  have hForest := hPlan.isBuilt.isForest
  have hHas := hasGraph_of_parent hParent
  have hc : c ∈ r.extent root :=
    (hPlan.ne_of_inside hg hParent List.mem_cons_self).1
  obtain ⟨others, hOrder⟩ :
      ∃ others, r.preorderWithin depth c = c :: others := by
    have hLt : c.index < r.graphs.size := hHas
    rcases depth with _ | depth
    · omega
    · exact ⟨_, rfl⟩
  rw [hOrder, CountsFrom.cons_iff] at hGraphs
  have hNext : φ.graph c = b.registry.nextGraph :=
    congrArg GraphId.mk hGraphs.1
  rcases leads_opened hPlan hg hOpen hc hParent hNext with
    ⟨hOpened, hFresh⟩
  have hNone := hOpen.isCopying.findChild?_eq_none hPlan hg
    hOpen.hasGraph hParent fun hs => hs.ne_next hNext
  let inside : Build H :=
    (b.openSubgraph (φ.graph g) (r.graph c).name).2.update
      (·.pushScope b.registry.nextGraph)
  have hRegistry :
      inside.registry =
        opened b.registry (φ.graph g) (r.graph c).name := by
    have hMake := Build.openSubgraph_of_new hNone
    unfold inside
    rw [hMake]
    rfl
  have hRun :
      ((Stmt.subgraph (r.graph c).name inner).run
        (φ.graph g) b).registry =
        (runBody (φ.graph c) inside inner).registry.popScope := by
    have hMake := Build.openSubgraph_of_new hNone
    rw [hNext]
    unfold inside
    rw [Stmt.run, hMake]
    rfl
  rw [← hRegistry] at hOpened hFresh
  have hBody := hCopies hInner hFresh
    (by
      intro h hh hNe n hn
      rw [hForest.lineage_of_parent hParent] at hh
      rcases List.mem_cons.mp hh with hEq | hUp
      · exact absurd hEq hNe
      · exact hOpened.hasNode (hMade h hUp n hn))
    (by
      rw [hOpened.graphs_size, hOrder]
      exact hGraphs.2)
    (by
      rw [hOpened.nodes_size]
      exact hNodes)
    (by
      rw [hOpened.edges_size]
      exact hEdges)
  have hClosed := Leads.close hPlan hOpen hNext hOpened hBody.1
  rw [hRun]
  constructor
  · rw [hOrder, List.tail_cons, Nat.add_comm] at hClosed
    rw [hOrder]
    exact hClosed
  · intro h hh
    have hDone := hBody.2 h hh
    exact ⟨hDone.hasGraph, hDone.contents⟩

/- The nodes that are counted are all made. -/
theorem Leads.hasNode_of_counts
    {s s' : Registry H}
    {t : AttributeTable}
    {ms ns : List NodeId}
    {i k : Nat}
    (hLeads : φ.Leads r root g s t ms i ns.length k s')
    (hCounts :
      CountsFrom (fun n => (φ.node n).index) s.nodes.size ns)
    {n : NodeId}
    (hn : n ∈ ns) :
    s'.HasNode (φ.node n) := by
  have hBounds := hCounts.bounds hn
  have hSize := hLeads.nodes_size
  unfold HasNode
  omega

theorem Leads.hasEdge_of_counts
    {s s' : Registry H}
    {t : AttributeTable}
    {ms : List NodeId}
    {es : List EdgeId}
    {i j : Nat}
    (hLeads : φ.Leads r root g s t ms i j es.length s')
    (hCounts :
      CountsFrom (fun e => (φ.edge e).index) s.edges.size es)
    {e : EdgeId}
    (he : e ∈ es) :
    s'.HasEdge (φ.edge e) := by
  have hBounds := hCounts.bounds he
  have hSize := hLeads.edges_size
  unfold HasEdge
  omega

/- The statements of children make them one after the other. -/
theorem leads_children
    (hPlan : φ.IsPlan IsGood r root)
    (hg : g ∈ r.extent root)
    {t : AttributeTable}
    {ms : List NodeId}
    {depth : Nat}
    {cs : List GraphId}
    {stmts : List Stmt}
    (hStmts :
      List.Forall₂
        (fun c stmt =>
          ∃ inner,
            stmt = .subgraph (r.graph c).name inner ∧
              r.IsBodyOf depth c inner)
        cs stmts) :
    ∀ {b : Build H},
      (∀ c ∈ cs,
        (r.graph c).parent = some g ∧
          r.graphs.size ≤ c.index + depth ∧
          φ.Copies H r root depth c) →
        φ.IsOpen r root g t ms b.registry →
        (∀ h ∈ r.lineage g,
          ∀ n ∈ (r.graph h).nodes,
            b.registry.HasNode (φ.node n)) →
        CountsFrom (fun h => (φ.graph h).index)
          b.registry.graphs.size
          (cs.flatMap (r.preorderWithin depth)) →
        CountsFrom (fun n => (φ.node n).index)
          b.registry.nodes.size
          (r.nodesOf (cs.flatMap (r.preorderWithin depth))) →
        CountsFrom (fun e => (φ.edge e).index)
          b.registry.edges.size
          (r.edgesOf (cs.flatMap (r.postorderWithin depth))) →
        φ.Leads r root g b.registry t ms
            (cs.flatMap (r.preorderWithin depth)).length
            (r.nodesOf
              (cs.flatMap (r.preorderWithin depth))).length
            (r.edgesOf
              (cs.flatMap (r.postorderWithin depth))).length
            (runBody (φ.graph g) b stmts).registry ∧
          ∀ h ∈ cs.flatMap (r.preorderWithin depth),
            φ.IsDone r h (runBody (φ.graph g) b stmts).registry := by
  induction hStmts with
  | nil =>
      intro b _ hOpen _ _ _ _
      exact ⟨.refl hOpen.isCopying hOpen.contents, by simp⟩
  | @cons c stmt cs stmts hStmt _ ih =>
      intro b hChildren hOpen hMade hGraphs hNodes hEdges
      rcases hStmt with ⟨inner, rfl, hInner⟩
      rcases hChildren c List.mem_cons_self with
        ⟨hParent, hDepth, hCopies⟩
      rw [List.flatMap_cons] at hGraphs hNodes hEdges
      rw [nodesOf_append] at hNodes
      rw [edgesOf_append] at hEdges
      rcases CountsFrom.append_iff.mp hGraphs with
        ⟨hGraphs, hGraphs'⟩
      rcases CountsFrom.append_iff.mp hNodes with ⟨hNodes, hNodes'⟩
      rcases CountsFrom.append_iff.mp hEdges with ⟨hEdges, hEdges'⟩
      rcases leads_subgraph hPlan hg hOpen hParent hDepth hCopies
        hMade hInner hGraphs hNodes hEdges with ⟨hStep, hDone⟩
      rcases ih (fun d hd => hChildren d (List.mem_cons_of_mem _ hd))
        (hStep.isOpen hOpen)
        (fun h hh n hn => hStep.hasNode (hMade h hh n hn))
        (by rw [hStep.graphs_size]; exact hGraphs')
        (by rw [hStep.nodes_size]; exact hNodes')
        (by rw [hStep.edges_size]; exact hEdges') with
        ⟨hRest, hDone'⟩
      simp only [List.flatMap_cons, nodesOf_append, edgesOf_append,
        List.length_append]
      refine ⟨hStep.trans hRest, ?_⟩
      intro h hh
      rcases List.mem_append.mp hh with hFirst | hLater
      · refine hRest.isDone ?_ (hDone h hFirst)
        rw [hPlan.isBuilt.isForest.preorder_eq_extent
          (hasGraph_of_parent hParent) hDepth] at hFirst
        exact (hPlan.ne_of_inside hg hParent hFirst).2
      · exact hDone' h hLater

------------------------------------------------------------
-- Whole Graphs
------------------------------------------------------------

end Numbering

namespace Registry

/-
  Wherever a graph that belongs to another one has a member, the
  name of the member stands for it there.
-/
def IsNamed
    {F : Factory}
    (r : Registry F)
    (root : GraphId) : Prop :=
  ∀ g ∈ r.extent root,
    ∀ n ∈ (r.graph g).members,
      r.resolveNode? g (r.node n).name = some n

end Registry

namespace Numbering

variable
  {F H : Factory}
  {IsGood : Value → Prop}
  {φ : Numbering}
  {r : Registry F}
  {root g : GraphId}

/- The nodes that the text of a graph mentions, all in one place. -/
theorem IsPlan.written
    (hPlan : φ.IsPlan IsGood r root)
    (hg : g ∈ r.extent root) :
    (r.writtenNodes g).Nodup ∧
      ∀ n ∈ r.writtenNodes g, n ∈ r.allNodes root := by
  have hScoped := hPlan.isBuilt.isScoped
  have hPerm := writtenNodes_perm hScoped g
  refine ⟨hPerm.nodup_iff.mpr (hScoped.nodup_members g), ?_⟩
  intro n hn
  exact hPlan.mem_nodes_of_member hg (hPerm.mem_iff.mp hn)

/-
  What stands in front of the children of a graph: its attributes
  and the nodes that it shows, of which it makes its own.
-/
theorem leads_front
    (hPlan : φ.IsPlan IsGood r root)
    (hg : g ∈ r.extent root)
    {b : Build H}
    (hOpen : φ.IsOpen r root g .empty [] b.registry)
    (hMade :
      ∀ h ∈ r.lineage g,
        h ≠ g →
          ∀ n ∈ (r.graph h).nodes,
            b.registry.HasNode (φ.node n))
    (hNodes :
      CountsFrom (fun n => (φ.node n).index)
        b.registry.nodes.size (r.graph g).nodes) :
    φ.Leads r root g b.registry (r.graph g).attributes
      (r.visibleNodes g) 0 (r.graph g).nodes.length 0
      (runBody (φ.graph g)
        (runBody (φ.graph g) b
          ((r.graph g).attributes.entries.map .assign))
        ((r.visibleNodes g).map (r.nodeStmt g))).registry := by
  have hForest := hPlan.isBuilt.isForest
  have hScoped := hPlan.isBuilt.isScoped
  have hFilter :=
    filter_visibleNodes hForest hScoped (hPlan.hasGraph hg)
  rcases hPlan.written hg with ⟨hNodup, hWritten⟩
  have hFirst := leads_assigns hPlan hOpen
    (r.graph g).attributes.entries
  rw [AttributeTable.setAll_empty
    (hPlan.isBuilt.isTabled.graph g).attributes] at hFirst
  have hMade' :
      ∀ n ∈ r.visibleNodes g,
        (r.node n).owner ≠ g →
          (runBody (φ.graph g) b
            ((r.graph g).attributes.entries.map
              .assign)).registry.HasNode (φ.node n) := by
    intro n hn hNe
    rcases (mem_visibleNodes hScoped).mp hn with ⟨hMember, hUp⟩
    apply hFirst.hasNode
    apply hMade _ hUp hNe
    exact hScoped.mem_nodes.mpr ⟨hScoped.hasNode hMember, rfl⟩
  have hSecond := leads_visible hPlan hg (r.visibleNodes g)
    (hFirst.isOpen hOpen)
    (hNodup.sublist (List.sublist_append_left _ _))
    (fun n hn => hWritten n (List.mem_append_left _ hn))
    (fun n hn => ((mem_visibleNodes hScoped).mp hn).2) hMade'
    (by
      rw [hFilter, hFirst.nodes_size]
      exact hNodes)
  have hAll := hFirst.trans hSecond
  simp only [hFilter, Nat.zero_add, List.nil_append] at hAll
  exact hAll

/-
  What stands behind the children of a graph: the nodes that only
  those own, and the edges of the graph.
-/
theorem leads_back
    (hPlan : φ.IsPlan IsGood r root)
    (hNamed : r.IsNamed root)
    (hg : g ∈ r.extent root)
    {b : Build H}
    {t : AttributeTable}
    (hOpen : φ.IsOpen r root g t (r.visibleNodes g) b.registry)
    (hFilled : φ.IsFilled r g b.registry)
    {stmts : List Stmt}
    (hStmts :
      List.Forall₂ (r.IsEdgeStmt (r.graph g).directed)
        (r.graph g).edges stmts)
    (hEdges :
      CountsFrom (fun e => (φ.edge e).index)
        b.registry.edges.size (r.graph g).edges) :
    φ.Leads r root g b.registry t (r.writtenNodes g) 0 0
      (r.graph g).edges.length
      (runBody (φ.graph g)
        (runBody (φ.graph g) b
          ((r.nestedNodes g).map (r.nodeStmt g)))
        stmts).registry := by
  have hLinked := hPlan.isBuilt.isLinked
  have hSelf := hPlan.isBuilt.isForest.mem_lineage_self
    (hPlan.hasGraph hg)
  have hPerm := writtenNodes_perm hPlan.isBuilt.isScoped g
  rcases hPlan.written hg with ⟨hNodup, hWritten⟩
  have hNames :
      ∀ n ∈ r.writtenNodes g,
        r.resolveNode? g (r.node n).name = some n :=
    fun n hn => hNamed g hg n (hPerm.mem_iff.mp hn)
  have hOwners :
      ∀ n ∈ r.nestedNodes g, (r.node n).owner ≠ g := by
    intro n hn hOwner
    have hOut := (List.mem_filter.mp hn).2
    rw [hOwner] at hOut
    simp [hSelf] at hOut
  have hEnds :
      ∀ e ∈ (r.graph g).edges,
        e ∈ (r.graph g).edges ∧
          (r.edge e).tail ∈ r.writtenNodes g ∧
          (r.edge e).head ∈ r.writtenNodes g := by
    intro e he
    rcases hLinked.mem_edges.mp he with ⟨hEdge, rfl⟩
    exact ⟨he, hPerm.mem_iff.mpr (hLinked.tail_mem hEdge),
      hPerm.mem_iff.mpr (hLinked.head_mem hEdge)⟩
  have hFirst := leads_nested hPlan hg (r.nestedNodes g) hOwners
    (fun n hn => hNames n (List.mem_append_right _ hn)) hOpen hFilled
    hNodup hWritten
  have hSecond := leads_edges hPlan hg hNames hStmts
    (hFirst.isOpen hOpen) (hFirst.isFilled hFilled) hEnds
    (by
      rw [hFirst.edges_size]
      exact hEdges)
  have hAll := hFirst.trans hSecond
  simp only [Nat.zero_add] at hAll
  exact hAll

/- Behind its children, all is made that names may stand for. -/
theorem isFilled_of_children
    {s : Registry H}
    (hs : s.HasGraph (φ.graph g))
    (hMade :
      ∀ h ∈ r.lineage g,
        ∀ n ∈ (r.graph h).nodes, s.HasNode (φ.node n))
    (hDone : ∀ h ∈ r.subgraphs g, φ.IsDone r h s)
    (hInside :
      ∀ n ∈ r.nodesOf (r.subgraphs g), s.HasNode (φ.node n)) :
    φ.IsFilled r g s where
  hasGraph h hh := by
    rcases List.mem_cons.mp hh with rfl | hSub
    · exact hs
    · exact (hDone h hSub).hasGraph
  hasNode h hh n hn := by
    rcases List.mem_append.mp hh with hUp | hSub
    · exact hMade h hUp n hn
    · exact hInside n (List.mem_flatMap.mpr ⟨h, hSub, hn⟩)

/-
  The text of a graph makes the graph again, given that its
  children do.
-/
theorem copies_of_children
    (hPlan : φ.IsPlan IsGood r root)
    (hNamed : r.IsNamed root)
    (hg : g ∈ r.extent root)
    {depth : Nat}
    (hDepth : r.graphs.size ≤ g.index + (depth + 1))
    (hChildren :
      ∀ c ∈ (r.graph g).children,
        (r.graph c).parent = some g ∧
          r.graphs.size ≤ c.index + depth ∧
          φ.Copies H r root depth c) :
    φ.Copies H r root (depth + 1) g := by
  intro b body hBody hOpen hMade hGraphs hNodes hEdges
  have hForest := hPlan.isBuilt.isForest
  have hExtent :=
    hForest.preorder_eq_extent (hPlan.hasGraph hg) hDepth
  have hInside :
      (r.graph g).children.flatMap (r.preorderWithin depth) =
        r.subgraphs g := List.tail_eq_of_cons_eq hExtent
  have hSelf : r.nodesOf [g] = (r.graph g).nodes :=
    List.flatMap_singleton _ _
  have hSelf' : r.edgesOf [g] = (r.graph g).edges :=
    List.flatMap_singleton _ _
  have hOrder :
      r.preorderWithin (depth + 1) g =
        [g] ++ (r.graph g).children.flatMap
          (r.preorderWithin depth) := rfl
  rw [hOrder, nodesOf_append, hSelf] at hNodes
  rw [postorderWithin, edgesOf_append, hSelf'] at hEdges
  rcases CountsFrom.append_iff.mp hNodes with ⟨hNodes, hNodes'⟩
  rcases CountsFrom.append_iff.mp hEdges with ⟨hEdges, hEdges'⟩
  rcases hBody with ⟨children, edges, rfl, hInner, hLinks⟩
  let front := runBody (φ.graph g)
    (runBody (φ.graph g) b
      ((r.graph g).attributes.entries.map .assign))
    ((r.visibleNodes g).map (r.nodeStmt g))
  have hFront := leads_front hPlan hg hOpen hMade hNodes
  have hOpen' := hFront.isOpen hOpen
  have hMade' :
      ∀ h ∈ r.lineage g,
        ∀ n ∈ (r.graph h).nodes,
          front.registry.HasNode (φ.node n) := by
    intro h hh n hn
    by_cases hEq : h = g
    · rw [hEq] at hn
      exact hFront.hasNode_of_counts hNodes hn
    · exact hFront.hasNode (hMade h hh hEq n hn)
  rw [← hFront.nodes_size] at hNodes'
  rcases leads_children hPlan hg hInner (b := front) hChildren hOpen'
    hMade'
    (by rw [hFront.graphs_size]; exact hGraphs)
    hNodes'
    (by rw [hFront.edges_size]; exact hEdges) with ⟨hMiddle, hDone⟩
  have hFilled :
      φ.IsFilled r g
        (runBody (φ.graph g) front children).registry := by
    apply isFilled_of_children
    · exact (hMiddle.isOpen hOpen').hasGraph
    · exact fun h hh n hn => hMiddle.hasNode (hMade' h hh n hn)
    · rw [← hInside]
      exact hDone
    · rw [← hInside]
      exact fun n hn => hMiddle.hasNode_of_counts hNodes' hn
  have hBack := leads_back hPlan hNamed hg (hMiddle.isOpen hOpen')
    hFilled hLinks
    (by
      rw [hMiddle.edges_size, hFront.edges_size]
      exact hEdges')
  have hAll := (hFront.trans hMiddle).trans hBack
  have hRun :
      runBody (φ.graph g) b
          ((r.graph g).attributes.entries.map .assign ++
            ((r.visibleNodes g).map (r.nodeStmt g) ++
              (children ++
                ((r.nestedNodes g).map (r.nodeStmt g) ++
                  edges)))) =
        runBody (φ.graph g)
          (runBody (φ.graph g)
            (runBody (φ.graph g) front children)
            ((r.nestedNodes g).map (r.nodeStmt g)))
          edges := by
    simp only [runBody_append]
    rfl
  rw [hRun]
  constructor
  · simp only [Nat.zero_add, Nat.add_zero] at hAll
    rw [hOrder, nodesOf_append, hSelf, postorderWithin,
      edgesOf_append, hSelf', List.length_append, List.length_append]
    exact hAll
  · intro h hh
    rcases List.mem_cons.mp hh with rfl | hSub
    · exact ⟨hAll.hasGraph hOpen.hasGraph, hAll.contents⟩
    · apply hBack.isDone _ (hDone h hSub)
      rcases List.mem_flatMap.mp hSub with ⟨c, hc, hIn⟩
      rcases hChildren c hc with ⟨hParent, hSize, -⟩
      rw [hForest.preorder_eq_extent (hasGraph_of_parent hParent)
        hSize] at hIn
      exact (hPlan.ne_of_inside hg hParent hIn).2

/- The text of a graph makes the graph again. -/
theorem copies_graph
    (hPlan : φ.IsPlan IsGood r root)
    (hNamed : r.IsNamed root)
    (H : Factory)
    (depth : Nat) :
    ∀ {g : GraphId},
      g ∈ r.extent root →
        r.graphs.size ≤ g.index + depth →
        φ.Copies H r root depth g := by
  have hForest := hPlan.isBuilt.isForest
  induction depth with
  | zero =>
      intro g hg hDepth
      have hLt : g.index < r.graphs.size := hPlan.hasGraph hg
      omega
  | succ depth ih =>
      intro g hg hDepth
      apply copies_of_children hPlan hNamed hg hDepth
      intro c hc
      have hParent :=
        (hForest.mem_children (hPlan.hasGraph hg)).mp hc
      have hLt := hForest.parent_lt hParent
      have hIn :=
        (hPlan.ne_of_inside hg hParent List.mem_cons_self).1
      exact ⟨hParent, by omega, ih hIn (by omega)⟩

end Numbering

end DotLang
