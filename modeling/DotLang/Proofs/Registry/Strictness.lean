import DotLang.Proofs.Registry.Bare
import DotLang.Proofs.Registry.Collapse
import DotLang.Proofs.Registry.Simulation

/-
  This file proves that a strict graph is the one that is not
  strict with the edges of each pair made one.

  The two are built side by side.  Names stand for the same in
  both, whatever edges there are, so that the same pairs are
  connected with the same attributes, and an edge that is found
  in the strict graph is the one that is left of its pair.

  Key definitions include:
    * `Registry.IsAlike`
    * `Registry.Collapses`
    * `Registry.JoinsOnce`
    * `GraphDecl.build`

  Key theorems include:
    * `Registry.Collapses.connectPair`
    * `Build.simulation_collapses`
    * `GraphDecl.collapses_strict`
-/

------------------------------------------------------------
-- Graphs of One Kind
------------------------------------------------------------

namespace DotLang

namespace Registry

variable {F : Factory} {p p' s s' r : Registry F}
variable {directed strict : Bool}

/- All graphs are directed and strict, or not, alike. -/
def IsAlike (r : Registry F) (directed strict : Bool) : Prop :=
  ∀ g : GraphId,
    r.HasGraph g →
      (r.graph g).directed = directed ∧ (r.graph g).strict = strict

theorem IsAlike.of_sameTree
    (h : r.IsAlike directed strict)
    (hSame : SameTree r s) :
    s.IsAlike directed strict := by
  intro g hg
  rw [hSame.directed, hSame.strict]
  exact h g ((hSame.hasGraph g).mp hg)

theorem IsAlike.addGraph
    (h : r.IsAlike directed strict)
    {graph : Graph}
    {parent : Option GraphId}
    (hParent : ∀ g, parent = some g → r.HasGraph g)
    (hDirected : graph.directed = directed)
    (hStrict : graph.strict = strict) :
    (r.addGraph graph parent).2.IsAlike directed strict := by
  intro g hg
  rcases (hasGraph_addGraph g).mp hg with hg | rfl
  · rw [view_addGraph_of_hasGraph Graph.directed hParent
        (fun _ _ => rfl) hg,
      view_addGraph_of_hasGraph Graph.strict hParent
        (fun _ _ => rfl) hg]
    exact h g hg
  · rw [graph_addGraph_next hParent]
    exact ⟨hDirected, hStrict⟩

/- Edges are directed as all graphs are. -/
theorem IsAlike.edge
    (h : r.IsAlike directed strict)
    (hEdges : r.ListsEdges)
    {e : EdgeId}
    (he : r.HasEdge e) :
    (r.edge e).directed = directed := by
  rw [hEdges.directed he]
  exact (h _ (hEdges.hasOwner he)).1

------------------------------------------------------------
-- Edges That Are Found
------------------------------------------------------------

section Finding

variable {tail head : NodeId} {e : EdgeId}

theorem pair_of_findEdge?_eq_some
    (hAlike : r.IsAlike directed strict)
    (hEdges : r.ListsEdges)
    (hFind : r.findEdge? tail head = some e) :
    r.HasEdge e ∧ (r.edge e).pair directed = .of directed tail head := by
  rcases Option.or_eq_some_iff.mp hFind with hSome | ⟨-, hSome⟩
  · rcases hEdges.mem_outEdges.mp (List.mem_of_find?_eq_some hSome)
      with ⟨he, hTail⟩
    have hHead := List.find?_some hSome
    exact ⟨he, Pair.of_eq_of_iff.mpr
      (.inl ⟨hTail, by simpa using hHead⟩)⟩
  · rcases hEdges.mem_outEdges.mp (List.mem_of_find?_eq_some hSome)
      with ⟨he, hTail⟩
    have hBack := List.find?_some hSome
    rw [hAlike.edge hEdges he] at hBack
    simp only [Bool.and_eq_true, Bool.not_eq_true',
      decide_eq_true_eq] at hBack
    exact ⟨he, Pair.of_eq_of_iff.mpr
      (.inr ⟨hBack.1, hTail, hBack.2⟩)⟩

theorem pair_ne_of_findEdge?_eq_none
    (hAlike : r.IsAlike directed strict)
    (hEdges : r.ListsEdges)
    (hFind : r.findEdge? tail head = none)
    (he : r.HasEdge e) :
    (r.edge e).pair directed ≠ .of directed tail head := by
  rcases findEdge?_eq_none_iff.mp hFind with ⟨hForward, hBackward⟩
  intro hPair
  rcases Pair.of_eq_of_iff.mp hPair with
    ⟨hTail, hHead⟩ | ⟨rfl, hTail, hHead⟩
  · exact hForward e (hEdges.mem_outEdges.mpr ⟨he, hTail⟩) hHead
  · exact hBackward e (hEdges.mem_outEdges.mpr ⟨he, hTail⟩)
      (hAlike.edge hEdges he) hHead

end Finding

theorem toList_edges
    (r : Registry F) :
    r.edges.toList = r.edgeIds.map r.edge := by
  apply List.ext_getElem
  · simp [edgeIds]
  · intro i hi hi'
    have hSize : i < r.edges.size := hi
    simp [edgeIds, edge, Array.getD, hSize]

/- A change of the only edge of a pair, seen from the pair. -/
theorem toList_modifyEdge
    {pair : Pair}
    {e : EdgeId}
    (hNodup : (r.edges.toList.map (Edge.pair directed)).Nodup)
    (he : r.HasEdge e)
    (hPair : (r.edge e).pair directed = pair)
    (change : Edge → Edge) :
    (r.modifyEdge e change).edges.toList =
      r.edges.toList.map fun d =>
        if d.pair directed = pair then change d else d := by
  rw [toList_edges, List.map_map] at hNodup
  rw [toList_edges, toList_edges, edgeIds_modifyEdge, List.map_map]
  apply List.map_congr_left
  intro d hd
  rw [edge_modifyEdge he, Function.comp_apply]
  by_cases hEq : d = e
  · rw [if_pos hEq, hEq, if_pos hPair]
  · have hOther : (r.edge d).pair directed ≠ pair := by
      intro hSame
      exact hEq (List.inj_on_of_nodup_map hNodup hd
        (mem_edgeIds.mpr he) (hSame.trans hPair.symm))
    rw [if_neg hEq, if_neg hOther]

------------------------------------------------------------
-- Side by Side
------------------------------------------------------------

/-
  A strict registry is one that is not strict with the edges of
  each pair made one.
-/
structure Collapses
    (directed : Bool)
    (p s : Registry F) : Prop where
  sameBare : SameBare p s
  edges_eq : s.edges.toList = p.collapsed directed
  plain : p.IsAlike directed false
  strict : s.IsAlike directed true
  consistent : p.IsConsistent
  consistent_strict : s.IsConsistent

/- No two edges join the same pair. -/
def JoinsOnce (r : Registry F) (directed : Bool) : Prop :=
  ∀ e d : EdgeId,
    r.HasEdge e →
      r.HasEdge d →
      (r.edge e).pair directed = (r.edge d).pair directed →
      e = d

theorem collapsed_congr
    (hEdges : s.edges = r.edges)
    (directed : Bool) :
    s.collapsed directed = r.collapsed directed := by
  cases r
  cases s
  cases hEdges
  rfl

namespace Collapses

/- What leaves the edges alone may be done on both sides. -/
theorem of_step
    (h : Collapses directed p s)
    (hPlain : Step p p')
    (hStrict : Step s s')
    (hSame : SameBare p' s')
    (hEdges : p'.edges = p.edges)
    (hEdges' : s'.edges = s.edges)
    (hAlike : p'.IsAlike directed false)
    (hAlike' : s'.IsAlike directed true) :
    Collapses directed p' s' where
  sameBare := hSame
  edges_eq := by
    rw [hEdges', h.edges_eq, collapsed_congr hEdges]
  plain := hAlike
  strict := hAlike'
  consistent := hPlain.isConsistent h.consistent
  consistent_strict := hStrict.isConsistent h.consistent_strict

section Changes

variable {g : GraphId} {n : NodeId}

theorem setGraph
    (h : Collapses directed p s)
    (hg : p.HasGraph g)
    {change : Graph → Graph}
    (hChange : Graph.SetsTables change)
    (hComm :
      ∀ graph : Graph, change graph.bare = (change graph).bare) :
    Collapses directed (p.modifyGraph g change)
      (s.modifyGraph g change) :=
  h.of_step (.setGraph p g change hg hChange)
    (.setGraph s g change ((h.sameBare.hasGraph g).mpr hg) hChange)
    (h.sameBare.modifyGraph hComm g) rfl rfl
    (h.plain.of_sameTree (sameShape_modifyGraph hChange g).tree)
    (h.strict.of_sameTree (sameShape_modifyGraph hChange g).tree)

theorem setNode
    (h : Collapses directed p s)
    (hn : p.HasNode n)
    (attributes : List Attribute) :
    Collapses directed
      (p.modifyNode n (Node.setAttributes attributes))
      (s.modifyNode n (Node.setAttributes attributes)) :=
  h.of_step (.setNode p n _ hn fun _ => rfl)
    (.setNode s n _ ((h.sameBare.hasNode n).mpr hn) fun _ => rfl)
    (h.sameBare.modifyNode (fun _ => by rfl) n) rfl rfl
    (h.plain.of_sameTree (sameShape_setNode n attributes).tree)
    (h.strict.of_sameTree (sameShape_setNode n attributes).tree)

theorem addMember
    (h : Collapses directed p s)
    (hg : p.HasGraph g)
    (hn : p.HasNode n) :
    Collapses directed (p.addMember g n) (s.addMember g n) :=
  h.of_step (.addMember p g n hg hn)
    (.addMember s g n ((h.sameBare.hasGraph g).mpr hg)
      ((h.sameBare.hasNode n).mpr hn))
    (h.sameBare.addMember g n) rfl rfl
    (h.plain.of_sameTree (sameTree_addMember g n))
    (h.strict.of_sameTree (sameTree_addMember g n))

theorem addNode
    (h : Collapses directed p s)
    (hg : p.HasGraph g)
    (name : String)
    (attributes : AttributeTable) :
    Collapses directed (p.addNode g name attributes).2
      (s.addNode g name attributes).2 :=
  h.of_step (.addNode p g name attributes hg)
    (.addNode s g name attributes ((h.sameBare.hasGraph g).mpr hg))
    (h.sameBare.addNode g name attributes) rfl rfl
    (h.plain.of_sameTree (sameTree_addNode g name attributes))
    (h.strict.of_sameTree (sameTree_addNode g name attributes))

theorem addGraph
    (h : Collapses directed p s)
    {graph graph' : Graph}
    {parent : Option GraphId}
    (hParent : ∀ g, parent = some g → p.HasGraph g)
    (hBlank : graph.IsBlank)
    (hBlank' : graph'.IsBlank)
    (hSame : graph'.bare = graph.bare)
    (hDirected : graph.directed = directed)
    (hPlain : graph.strict = false)
    (hStrict : graph'.strict = true) :
    Collapses directed (p.addGraph graph parent).2
      (s.addGraph graph' parent).2 := by
  have hParent' : ∀ g, parent = some g → s.HasGraph g :=
    fun g hEq => (h.sameBare.hasGraph g).mpr (hParent g hEq)
  have hDirected' : graph'.directed = directed :=
    (congrArg Graph.directed hSame :).trans hDirected
  exact h.of_step (.addGraph p graph parent hBlank hParent)
    (.addGraph s graph' parent hBlank' hParent')
    (h.sameBare.addGraph hSame parent)
    (by cases parent <;> rfl) (by cases parent <;> rfl)
    (h.plain.addGraph hParent hDirected hPlain)
    (h.strict.addGraph hParent' hDirected' hStrict)

theorem pushScope
    (h : Collapses directed p s)
    (hg : p.HasGraph g) :
    Collapses directed (p.pushScope g) (s.pushScope g) :=
  h.of_step (.pushScope p g hg)
    (.pushScope s g ((h.sameBare.hasGraph g).mpr hg))
    { h.sameBare with scope := congrArg (g :: ·) h.sameBare.scope }
    rfl rfl h.plain h.strict

theorem popScope
    (h : Collapses directed p s) :
    Collapses directed p.popScope s.popScope :=
  h.of_step (.popScope p) (.popScope s)
    { h.sameBare with scope := congrArg List.tail h.sameBare.scope }
    rfl rfl h.plain h.strict

theorem diagnose
    (h : Collapses directed p s)
    (d : Diagnostic) :
    Collapses directed (p.addDiagnostic d) (s.addDiagnostic d) :=
  h.of_step (.diagnose p [d]) (.diagnose s [d])
    { h.sameBare with
      diagnostics := congrArg (· ++ [d]) h.sameBare.diagnostics }
    rfl rfl h.plain h.strict

end Changes

/- The edges that are left in a strict registry are all distinct. -/
theorem nodup_pairs
    (h : Collapses directed p s) :
    (s.edges.toList.map (Edge.pair directed)).Nodup := by
  rw [h.edges_eq]
  exact nodup_pairs_collapsed p directed

theorem joinsOnce
    (h : Collapses directed p s) :
    s.JoinsOnce directed := by
  intro e d he hd hPair
  have hNodup := h.nodup_pairs
  rw [toList_edges, List.map_map] at hNodup
  exact List.inj_on_of_nodup_map hNodup (mem_edgeIds.mpr he)
    (mem_edgeIds.mpr hd) hPair

/- A pair is joined on one side if it is on the other one. -/
theorem exists_edge_iff
    (h : Collapses directed p s)
    (pair : Pair) :
    (∃ e, s.HasEdge e ∧ (s.edge e).pair directed = pair) ↔
      p.joining directed pair ≠ [] := by
  rw [← mem_pairs_collapsed, ← h.edges_eq, toList_edges,
    List.map_map, List.mem_map]
  simp

/- An edge of a pair that is joined is merged with the first one. -/
theorem addEdge_of_findEdge?_eq_some
    (h : Collapses directed p s)
    {g : GraphId}
    {tail head : NodeId}
    (hg : p.HasGraph g)
    (hTail : p.HasNode tail)
    (hHead : p.HasNode head)
    (attributes : AttributeTable)
    {e : EdgeId}
    (hFind : s.findEdge? tail head = some e) :
    Collapses directed (p.addEdge g tail head attributes).2
      (s.modifyEdge e (Edge.setAttributes attributes.entries)) := by
  have hAdd : Step p (p.addEdge g tail head attributes).2 :=
    .addEdge p g tail head attributes hg hTail hHead
  have hSame := SameBare.addEdge p g tail head attributes
  rcases pair_of_findEdge?_eq_some h.strict
    h.consistent_strict.listsEdges hFind with ⟨he, hPair⟩
  have hSet :
      Step s
        (s.modifyEdge e (Edge.setAttributes attributes.entries)) :=
    .setEdge s e _ he fun _ => rfl
  have hJoined := (h.exists_edge_iff _).mp ⟨e, he, hPair⟩
  exact
    { sameBare :=
        hSame.symm.trans
          (h.sameBare.trans (SameBare.modifyEdge s e _))
      edges_eq := by
        rw [toList_modifyEdge h.nodup_pairs he hPair, h.edges_eq,
          collapsed_addEdge, if_neg hJoined, List.append_nil]
      plain :=
        h.plain.of_sameTree
          (sameTree_addEdge g tail head attributes)
      strict := h.strict.of_sameTree (sameShape_setEdge e _).tree
      consistent := hAdd.isConsistent h.consistent
      consistent_strict := hSet.isConsistent h.consistent_strict }

/- An edge of a pair that is not joined is the first of the pair. -/
theorem addEdge_of_findEdge?_eq_none
    (h : Collapses directed p s)
    {g : GraphId}
    {tail head : NodeId}
    (hg : p.HasGraph g)
    (hTail : p.HasNode tail)
    (hHead : p.HasNode head)
    (attributes : AttributeTable)
    (hFind : s.findEdge? tail head = none) :
    Collapses directed (p.addEdge g tail head attributes).2
      (s.addEdge g tail head attributes).2 := by
  have hAdd : Step p (p.addEdge g tail head attributes).2 :=
    .addEdge p g tail head attributes hg hTail hHead
  have hAdd' : Step s (s.addEdge g tail head attributes).2 :=
    .addEdge s g tail head attributes
      ((h.sameBare.hasGraph g).mpr hg)
      ((h.sameBare.hasNode tail).mpr hTail)
      ((h.sameBare.hasNode head).mpr hHead)
  have hSame := SameBare.addEdge p g tail head attributes
  have hDirected :
      (s.graph g).directed = (p.graph g).directed :=
    h.sameBare.view_graph Graph.directed (fun _ => rfl) g
  have hNone :
      p.joining directed (.of directed tail head) = [] := by
    by_contra hSome
    rcases (h.exists_edge_iff _).mpr hSome with ⟨e, he, hPair⟩
    exact pair_ne_of_findEdge?_eq_none h.strict
      h.consistent_strict.listsEdges hFind he hPair
  exact
    { sameBare :=
        hSame.symm.trans
          (h.sameBare.trans (SameBare.addEdge s g _ _ _))
      edges_eq := by
        rw [collapsed_addEdge,
          map_collapsed_of_joining_eq_nil hNone
            (Edge.setAttributes attributes.entries),
          if_pos hNone, ← h.edges_eq, ← hDirected]
        exact Array.toList_push
      plain :=
        h.plain.of_sameTree
          (sameTree_addEdge g tail head attributes)
      strict :=
        h.strict.of_sameTree
          (sameTree_addEdge g tail head attributes)
      consistent := hAdd.isConsistent h.consistent
      consistent_strict := hAdd'.isConsistent h.consistent_strict }

end Collapses

end Registry

------------------------------------------------------------
-- Builds Side by Side
------------------------------------------------------------

namespace Build

open Registry

variable {F : Factory} {b c : Build F} {directed : Bool}
variable {scope : GraphId}

theorem resolveNode_collapses
    (h : Collapses directed b.registry c.registry)
    (hScope : b.registry.HasGraph scope)
    (name : String) :
    (c.resolveNode scope name).1 = (b.resolveNode scope name).1 ∧
      Collapses directed (b.resolveNode scope name).2.registry
        (c.resolveNode scope name).2.registry := by
  have hSame := h.sameBare.resolveNode?_eq scope name
  have hNode := (resolveNode_steps h.consistent hScope name).2
  cases hFind : b.registry.resolveNode? scope name with
  | some n =>
      rw [hFind] at hSame
      rw [resolveNode_of_some hFind] at hNode
      rw [resolveNode_of_some hFind, resolveNode_of_some hSame]
      exact ⟨rfl, h.addMember hScope hNode⟩
  | none =>
      rw [hFind] at hSame
      have hDefaults :
          (c.registry.graph scope).nodeDefaults =
            (b.registry.graph scope).nodeDefaults :=
        h.sameBare.view_graph Graph.nodeDefaults (fun _ => rfl) scope
      have hMade :=
        h.addNode hScope name (b.registry.graph scope).nodeDefaults
      have hHas :=
        ((sameTree_addNode scope name
          (b.registry.graph scope).nodeDefaults).hasGraph
            scope).mpr hScope
      rw [resolveNode_of_none hFind] at hNode
      rw [resolveNode_of_none hFind, resolveNode_of_none hSame]
      refine ⟨h.sameBare.nextNode_eq, ?_⟩
      simp only [declareNode, hDefaults, h.sameBare.nextNode_eq]
      exact hMade.addMember hHas hNode

theorem openSubgraph_collapses
    (h : Collapses directed b.registry c.registry)
    (hScope : b.registry.HasGraph scope)
    (name : String) :
    (c.openSubgraph scope name).1 = (b.openSubgraph scope name).1 ∧
      Collapses directed (b.openSubgraph scope name).2.registry
        (c.openSubgraph scope name).2.registry := by
  have hSame := h.sameBare.findChild?_eq scope name
  have hScope' := (h.sameBare.hasGraph scope).mpr hScope
  rcases openSubgraph_cases b scope name with
    ⟨g, hName, hFind, hOpen⟩ | ⟨hNew, hOpen⟩
  · rw [hFind] at hSame
    rw [hOpen, openSubgraph_of_some hName hSame]
    exact ⟨rfl, h⟩
  · have hNew' :
        name ≠ "" → c.registry.findChild? scope name = none := by
      rwa [hSame]
    have hBare :
        (Graph.newSubgraph name (c.registry.graph scope)).bare =
          (Graph.newSubgraph name (b.registry.graph scope)).bare :=
      (congrArg (fun graph => (Graph.newSubgraph name graph).bare)
        (h.sameBare.graph_eq scope) :)
    rw [hOpen, openSubgraph_of_new hNew']
    exact ⟨h.sameBare.nextGraph_eq,
      h.addGraph (fun _ hEq => Option.some.inj hEq ▸ hScope)
        (Graph.isBlank_newSubgraph _ _)
        (Graph.isBlank_newSubgraph _ _) hBare
        (h.plain scope hScope).1 (h.plain scope hScope).2
        (h.strict scope hScope').2⟩

theorem checkArrow_collapses
    (h : Collapses directed b.registry c.registry)
    (scope : GraphId)
    (arrow : Arrow)
    (location : Location) :
    Collapses directed (b.checkArrow scope arrow location).registry
      (c.checkArrow scope arrow location).registry := by
  have hDirected :
      (c.registry.graph scope).directed =
        (b.registry.graph scope).directed :=
    h.sameBare.view_graph Graph.directed (fun _ => rfl) scope
  unfold checkArrow
  rw [hDirected]
  dsimp only
  cases arrowWarning? (b.registry.graph scope).directed arrow with
  | none => exact h
  | some message => exact h.diagnose ⟨.semantic, message, location⟩

/- A pair is connected anew, or in the strict graph just once. -/
theorem connectPair_collapses
    (h : Collapses directed b.registry c.registry)
    (hScope : b.registry.HasGraph scope)
    (attributes : AttributeTable)
    {tail head : NodeId}
    (hTail : b.registry.HasNode tail)
    (hHead : b.registry.HasNode head) :
    Collapses directed
      (b.connectPair scope attributes tail head).registry
      (c.connectPair scope attributes tail head).registry := by
  have hPlain := (h.plain scope hScope).2
  have hStrict :=
    (h.strict scope ((h.sameBare.hasGraph scope).mpr hScope)).2
  rw [connectPair_of_new fun hIs =>
    absurd hIs (Bool.eq_false_iff.mp hPlain)]
  cases hFind : c.registry.findEdge? tail head with
  | some e =>
      rw [connectPair_of_some hStrict hFind]
      exact h.addEdge_of_findEdge?_eq_some hScope hTail hHead
        attributes hFind
  | none =>
      rw [connectPair_of_new fun _ => hFind]
      exact h.addEdge_of_findEdge?_eq_none hScope hTail hHead
        attributes hFind

theorem applyDefaults_collapses
    (h : Collapses directed b.registry c.registry)
    (hScope : b.registry.HasGraph scope)
    (kind : EntityKind)
    (attributes : List Attribute) :
    Collapses directed
      (b.applyDefaults scope kind attributes).registry
      (c.applyDefaults scope kind attributes).registry := by
  have hTables :
      Graph.SetsTables (Graph.setDefaults kind attributes) :=
    fun _ => by cases kind <;> rfl
  have hComm :
      ∀ graph : Graph,
        Graph.setDefaults kind attributes graph.bare =
          (graph.setDefaults kind attributes).bare :=
    fun _ => by cases kind <;> rfl
  unfold applyDefaults
  by_cases hKind : kind = .graph
  · rw [if_pos hKind, if_pos hKind]
    have hSet :
        Collapses directed
          (b.registry.modifyGraph scope
            (Graph.setAttributes attributes))
          (c.registry.modifyGraph scope
            (Graph.setAttributes attributes)) :=
      h.setGraph hScope (fun _ => rfl) fun _ => rfl
    have hGraph :=
      ((sameShape_setGraph scope attributes).tree.hasGraph
        scope).mpr hScope
    exact hSet.setGraph hGraph hTables hComm
  · rw [if_neg hKind, if_neg hKind]
    exact h.setGraph hScope hTables hComm

/- Statements make a strict graph as one that is not strict. -/
theorem simulation_collapses
    (directed : Bool) :
    Simulation id id
      fun b c : Build F =>
        Collapses directed b.registry c.registry where
  consistent h := h.consistent
  members h g := by
    rw [List.map_id]
    exact h.sameBare.view_graph Graph.members (fun _ => rfl) g
  edgeDefaults h g :=
    h.sameBare.view_graph Graph.edgeDefaults (fun _ => rfl) g
  resolveNode h hg name := resolveNode_collapses h hg name
  openSubgraph h hg name := openSubgraph_collapses h hg name
  pushScope h hg := h.pushScope hg
  popScope h _ := h.popScope
  addMember h hg hn := h.addMember hg hn
  checkArrow h g arrow location :=
    checkArrow_collapses h g arrow location
  connectPair h hg hTail hHead attributes :=
    connectPair_collapses h hg attributes hTail hHead
  applyDefaults h hg kind attributes :=
    applyDefaults_collapses h hg kind attributes
  setGraph h hg _ := h.setGraph hg (fun _ => rfl) fun _ => rfl
  setNode h hn attributes := h.setNode hn attributes

end Build

------------------------------------------------------------
-- Strict Graphs
------------------------------------------------------------

open Registry

variable {F : Factory}

/- What a graph makes of a registry without entities. -/
def GraphDecl.build
    (decl : GraphDecl)
    (factory : F.State)
    (options : Options) : Registry F :=
  (decl.run (.start (.empty factory options))).registry

theorem collapses_empty
    (directed : Bool)
    (factory : F.State)
    (options : Options) :
    Collapses directed (.empty factory options)
      (.empty factory options : Registry F) where
  sameBare := .refl _
  edges_eq := rfl
  plain := nofun
  strict := nofun
  consistent := isConsistent_empty factory options
  consistent_strict := isConsistent_empty factory options

theorem GraphDecl.build_collapses
    (decl : GraphDecl)
    (factory : F.State)
    (options : Options) :
    Collapses decl.directed
      ({ decl with strict := false }.build factory options)
      ({ decl with strict := true }.build factory options) := by
  let start : Build F := .start (.empty factory options)
  let opened (strict : Bool) : Build F :=
    (start.makeGraph (.new decl.name decl.directed strict) none).2
  have hOpen :
      Collapses decl.directed (opened false).registry
        (opened true).registry :=
    (collapses_empty decl.directed factory options).addGraph nofun
      (Graph.isBlank_new _ _ _) (Graph.isBlank_new _ _ _) rfl rfl rfl
      rfl
  have hg :
      (opened false).registry.HasGraph start.registry.nextGraph :=
    (hasGraph_addGraph _).mpr (.inr rfl)
  exact (Build.simulation_collapses decl.directed).within hOpen hg
    decl.body

/-
  A strict graph is the graph that is not strict with the edges
  of each pair made one, so that no two of its edges join the
  same pair, whichever graphs inside it own them.
-/
theorem GraphDecl.collapses_strict
    (decl : GraphDecl)
    (factory : F.State)
    (options : Options) :
    Collapses decl.directed
        ({ decl with strict := false }.build factory options)
        ({ decl with strict := true }.build factory options) ∧
      ({ decl with strict := true }.build factory
        options).JoinsOnce decl.directed :=
  ⟨decl.build_collapses factory options,
    (decl.build_collapses factory options).joinsOnce⟩

end DotLang
