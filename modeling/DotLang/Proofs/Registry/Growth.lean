import DotLang.Proofs.Registry.Change

/-
  This file proves that the graphs of a registry stay a forest
  through all changes, that subgraphs are like their parents,
  and that nothing is taken away from a graph.

  Key definitions include:
    * `Registry.Grows`
    * `Registry.IsUniform`

  Key theorems include:
    * `Registry.Change.isForest`
    * `Registry.Change.isUniform`
    * `Registry.Change.grows`
    * `Registry.Grows.lineage_eq`
-/

------------------------------------------------------------
-- New Graphs
------------------------------------------------------------

namespace DotLang

namespace Registry

variable {F : Factory} {r s t : Registry F}

section Graphs

variable {graph : Graph} {parent : Option GraphId}

/- Of older graphs only the list of children changes. -/
theorem view_addGraph_of_hasGraph
    {β : Type}
    (view : Graph → β)
    (hParent : ∀ g, parent = some g → r.HasGraph g)
    (hChildren :
      ∀ (graph : Graph) (children : List GraphId),
        view { graph with children := children } = view graph)
    {h : GraphId}
    (hh : r.HasGraph h) :
    view ((r.addGraph graph parent).2.graph h) =
      view (r.graph h) := by
  cases parent with
  | none => rw [graph_addGraph_none, if_neg hh.ne_next]
  | some g =>
      rw [graph_addGraph_some graph (hParent g rfl),
        if_neg hh.ne_next]
      by_cases hEq : h = g
      · rw [if_pos hEq, hChildren, hEq]
      · rw [if_neg hEq]

theorem graph_addGraph_next
    (hParent : ∀ g, parent = some g → r.HasGraph g) :
    (r.addGraph graph parent).2.graph r.nextGraph =
      { graph with parent := parent } := by
  cases parent with
  | none => rw [graph_addGraph_none, if_pos rfl]
  | some g =>
      rw [graph_addGraph_some graph (hParent g rfl), if_pos rfl]

theorem children_addGraph
    (hParent : ∀ g, parent = some g → r.HasGraph g)
    {h : GraphId}
    (hh : r.HasGraph h) :
    ((r.addGraph graph parent).2.graph h).children =
      (r.graph h).children ++
        if parent = some h then [r.nextGraph] else [] := by
  cases parent with
  | none =>
      rw [graph_addGraph_none, if_neg hh.ne_next]
      simp
  | some g =>
      rw [graph_addGraph_some graph (hParent g rfl),
        if_neg hh.ne_next]
      by_cases hEq : h = g
      · simp [hEq]
      · simp [hEq, Ne.symm hEq]

theorem hasGraph_addGraph
    (h : GraphId) :
    (r.addGraph graph parent).2.HasGraph h ↔
      r.HasGraph h ∨ h = r.nextGraph := by
  rw [← mem_graphIds, graphIds_addGraph]
  simp

end Graphs

------------------------------------------------------------
-- Forests Stay Forests
------------------------------------------------------------

/-
  A graph that may be added under a parent or at top level.  It
  holds nothing, is like its parent, and has a name that no
  other child there has, unless it is empty.
-/
structure MayAdd
    (r : Registry F)
    (graph : Graph)
    (parent : Option GraphId) : Prop where
  hasParent : ∀ g, parent = some g → r.HasGraph g
  isBlank : graph.IsBlank
  directed :
    ∀ g, parent = some g → graph.directed = (r.graph g).directed
  strict :
    ∀ g, parent = some g → graph.strict = (r.graph g).strict
  distinct :
    ∀ g,
      parent = some g →
        graph.name ≠ "" →
        r.findChild? g graph.name = none

theorem MayAdd.root
    (r : Registry F)
    (name : String)
    (directed strict : Bool) :
    r.MayAdd (.new name directed strict) none where
  hasParent := nofun
  isBlank := Graph.isBlank_new name directed strict
  directed := nofun
  strict := nofun
  distinct := nofun

theorem MayAdd.child
    {scope : GraphId}
    {name : String}
    (hScope : r.HasGraph scope)
    (hNew : name ≠ "" → r.findChild? scope name = none) :
    r.MayAdd (.newSubgraph name (r.graph scope)) (some scope) where
  hasParent _ hEq := Option.some.inj hEq ▸ hScope
  isBlank := Graph.isBlank_newSubgraph name _
  directed _ hEq := Option.some.inj hEq ▸ rfl
  strict _ hEq := Option.some.inj hEq ▸ rfl
  distinct _ hEq := Option.some.inj hEq ▸ hNew

theorem IsForest.of_sameTree
    (hForest : r.IsForest)
    (hSame : SameTree r s) :
    s.IsForest where
  parent_lt hParent :=
    hForest.parent_lt ((hSame.parent _).symm.trans hParent)
  children_eq hg := by
    rw [hSame.children, hSame.graphIds,
      hForest.children_eq ((hSame.hasGraph _).mp hg)]
    simp only [hSame.parent]
  roots_eq := by
    rw [hSame.roots, hSame.graphIds, hForest.roots_eq]
    simp only [hSame.parent]

/- A child is an old one, or the new one. -/
theorem IsForest.parent_addGraph_cases
    {graph : Graph}
    {parent : Option GraphId}
    {c g : GraphId}
    (hForest : r.IsForest)
    (hParent : ∀ g, parent = some g → r.HasGraph g)
    (hInside :
      ((r.addGraph graph parent).2.graph c).parent = some g) :
    r.HasGraph g ∧
      (r.HasGraph c ∧ (r.graph c).parent = some g ∨
        c = r.nextGraph ∧ parent = some g) := by
  rcases (hasGraph_addGraph c).mp
    (hasGraph_of_parent hInside) with hc | rfl
  · rw [view_addGraph_of_hasGraph Graph.parent hParent
      (fun _ _ => rfl) hc] at hInside
    exact ⟨hForest.hasGraph_parent hInside, .inl ⟨hc, hInside⟩⟩
  · rw [graph_addGraph_next hParent] at hInside
    exact ⟨hParent g hInside, .inr ⟨rfl, hInside⟩⟩

/- What a new graph adds to a list of graphs by their parent. -/
theorem filter_parent_addGraph
    (graph : Graph)
    {parent : Option GraphId}
    (hParent : ∀ g, parent = some g → r.HasGraph g)
    (p : Option GraphId) :
    (r.addGraph graph parent).2.graphIds.filter
        (fun h =>
          ((r.addGraph graph parent).2.graph h).parent = p) =
      r.graphIds.filter (fun h => (r.graph h).parent = p) ++
        if parent = p then [r.nextGraph] else [] := by
  rw [graphIds_addGraph, List.filter_append]
  congr 1
  · apply List.filter_congr
    intro h hh
    rw [view_addGraph_of_hasGraph Graph.parent hParent
      (fun _ _ => rfl) (mem_graphIds.mp hh)]
  · rw [List.filter_singleton, graph_addGraph_next hParent]
    by_cases hEq : parent = p
    · simp [hEq]
    · simp [hEq]

/- A graph without children may be put under any parent. -/
theorem IsForest.addGraph_of_children
    {graph : Graph}
    {parent : Option GraphId}
    (hForest : r.IsForest)
    (hParent : ∀ g, parent = some g → r.HasGraph g)
    (hChildren : graph.children = []) :
    (r.addGraph graph parent).2.IsForest := by
  have hNext :
      (r.addGraph graph parent).2.graph r.nextGraph =
        { graph with parent := parent } :=
    graph_addGraph_next hParent
  have hNoneInside :
      ∀ h, (r.graph h).parent ≠ some r.nextGraph := by
    intro h hInside
    exact (hForest.hasGraph_parent hInside).ne_next rfl
  refine ⟨?_, ?_, ?_⟩
  · intro h p hEq
    rcases hForest.parent_addGraph_cases hParent hEq with
      ⟨hp, ⟨-, hOld⟩ | ⟨rfl, -⟩⟩
    · exact hForest.parent_lt hOld
    · exact hp
  · intro h hh
    rw [filter_parent_addGraph graph hParent]
    rcases (hasGraph_addGraph h).mp hh with hh | rfl
    · rw [children_addGraph hParent hh, hForest.children_eq hh]
    · rw [hNext, hChildren, if_neg, List.append_nil]
      · symm
        apply List.filter_eq_nil_iff.mpr
        intro h _
        simpa using hNoneInside h
      · intro hEq
        exact (hParent _ hEq).ne_next rfl
  · rw [roots_addGraph, filter_parent_addGraph graph hParent,
      hForest.roots_eq]
    by_cases hNone : parent = none
    · rw [if_pos hNone, if_pos hNone]
    · rw [if_neg hNone, if_neg hNone, List.append_nil]

theorem IsForest.addGraph
    {graph : Graph}
    {parent : Option GraphId}
    (hForest : r.IsForest)
    (hMay : r.MayAdd graph parent) :
    (r.addGraph graph parent).2.IsForest :=
  hForest.addGraph_of_children hMay.hasParent hMay.isBlank.children

------------------------------------------------------------
-- Subgraphs Like Their Parents
------------------------------------------------------------

/-
  A subgraph is directed and strict like its parent, and no two
  children of a graph bear the same name, unless it is empty.
-/
structure IsUniform (r : Registry F) : Prop where
  directed :
    ∀ {c g : GraphId},
      (r.graph c).parent = some g →
        (r.graph c).directed = (r.graph g).directed
  strict :
    ∀ {c g : GraphId},
      (r.graph c).parent = some g →
        (r.graph c).strict = (r.graph g).strict
  distinct :
    ∀ {c d g : GraphId},
      (r.graph c).parent = some g →
        (r.graph d).parent = some g →
        (r.graph c).name = (r.graph d).name →
        (r.graph c).name ≠ "" →
        c = d

theorem IsUniform.of_sameTree
    (hUniform : r.IsUniform)
    (hSame : SameTree r s) :
    s.IsUniform := by
  constructor
  · intro c g
    rw [hSame.parent, hSame.directed, hSame.directed]
    exact hUniform.directed
  · intro c g
    rw [hSame.parent, hSame.strict, hSame.strict]
    exact hUniform.strict
  · intro c d g
    rw [hSame.parent, hSame.parent, hSame.name, hSame.name]
    exact hUniform.distinct

/- No child there has the name of a graph that may be added. -/
theorem MayAdd.name_ne
    {graph : Graph}
    {parent : Option GraphId}
    {c g : GraphId}
    (hMay : r.MayAdd graph parent)
    (hForest : r.IsForest)
    (hChild : (r.graph c).parent = some g)
    (hParent : parent = some g)
    (hSome : graph.name ≠ "") :
    (r.graph c).name ≠ graph.name := by
  have hg := hForest.hasGraph_parent hChild
  exact findChild?_eq_none_iff.mp (hMay.distinct g hParent hSome) c
    ((hForest.mem_children hg).mpr hChild)

theorem IsUniform.addGraph
    {graph : Graph}
    {parent : Option GraphId}
    (hForest : r.IsForest)
    (hUniform : r.IsUniform)
    (hMay : r.MayAdd graph parent) :
    (r.addGraph graph parent).2.IsUniform := by
  have hParent := hMay.hasParent
  have hNext :
      (r.addGraph graph parent).2.graph r.nextGraph =
        { graph with parent := parent } :=
    graph_addGraph_next hParent
  have hOld :
      ∀ {β : Type} (view : Graph → β),
        (∀ (graph : Graph) (children : List GraphId),
          view { graph with children := children } = view graph) →
        ∀ h,
          r.HasGraph h →
            view ((r.addGraph graph parent).2.graph h) =
              view (r.graph h) :=
    fun view hView h hh =>
      view_addGraph_of_hasGraph view hParent hView hh
  have hName := hOld Graph.name fun _ _ => rfl
  have hDirected := hOld Graph.directed fun _ _ => rfl
  have hStrict := hOld Graph.strict fun _ _ => rfl
  constructor
  · intro c g hInside
    rcases hForest.parent_addGraph_cases hParent hInside with
      ⟨hg, ⟨hc, hInside⟩ | ⟨rfl, hEq⟩⟩
    · rw [hDirected c hc, hDirected g hg]
      exact hUniform.directed hInside
    · rw [hNext, hDirected g hg]
      exact hMay.directed g hEq
  · intro c g hInside
    rcases hForest.parent_addGraph_cases hParent hInside with
      ⟨hg, ⟨hc, hInside⟩ | ⟨rfl, hEq⟩⟩
    · rw [hStrict c hc, hStrict g hg]
      exact hUniform.strict hInside
    · rw [hNext, hStrict g hg]
      exact hMay.strict g hEq
  · intro c d g hC hD hEqName hSome
    rcases hForest.parent_addGraph_cases hParent hC with
      ⟨_, ⟨hc, hOldC⟩ | ⟨rfl, hEqC⟩⟩
    · rw [hName c hc] at hEqName hSome
      rcases hForest.parent_addGraph_cases hParent hD with
        ⟨_, ⟨hd, hOldD⟩ | ⟨rfl, hEqD⟩⟩
      · rw [hName d hd] at hEqName
        exact hUniform.distinct hOldC hOldD hEqName hSome
      · rw [hNext] at hEqName
        rw [hEqName] at hSome
        exact absurd hEqName
          (hMay.name_ne hForest hOldC hEqD hSome)
    · rw [hNext] at hEqName hSome
      rcases hForest.parent_addGraph_cases hParent hD with
        ⟨_, ⟨hd, hOldD⟩ | ⟨rfl, -⟩⟩
      · rw [hName d hd] at hEqName
        exact absurd hEqName.symm
          (hMay.name_ne hForest hOldD hEqC hSome)
      · rfl

/- A graph is directed and strict like all graphs around it. -/
theorem IsUniform.eq_of_mem_lineage
    (hUniform : r.IsUniform)
    (hForest : r.IsForest)
    {f g : GraphId}
    (hg : r.HasGraph g)
    (hMem : f ∈ r.lineage g) :
    (r.graph f).directed = (r.graph g).directed ∧
      (r.graph f).strict = (r.graph g).strict := by
  induction g, hg using hForest.ascending with
  | step g hg ih =>
      cases hParent : (r.graph g).parent with
      | none =>
          rw [IsForest.lineage_of_root hg hParent,
            List.mem_singleton] at hMem
          subst hMem
          exact ⟨rfl, rfl⟩
      | some parent =>
          rw [hForest.lineage_of_parent hParent] at hMem
          rcases List.mem_cons.mp hMem with rfl | hMem
          · exact ⟨rfl, rfl⟩
          · rw [hUniform.directed hParent, hUniform.strict hParent]
            exact ih parent hParent hMem

------------------------------------------------------------
-- Growth
------------------------------------------------------------

/- Graphs stay where they are, and stay what they mention. -/
structure Grows (r s : Registry F) : Prop where
  graph : ∀ {g}, r.HasGraph g → s.HasGraph g
  parent :
    ∀ {g},
      r.HasGraph g → (s.graph g).parent = (r.graph g).parent
  directed :
    ∀ {g},
      r.HasGraph g → (s.graph g).directed = (r.graph g).directed
  strict :
    ∀ {g},
      r.HasGraph g → (s.graph g).strict = (r.graph g).strict
  members :
    ∀ {g},
      r.HasGraph g → (r.graph g).members ⊆ (s.graph g).members

theorem Grows.refl
    (r : Registry F) :
    Grows r r where
  graph hg := hg
  parent _ := rfl
  directed _ := rfl
  strict _ := rfl
  members _ := List.Subset.refl _

theorem Grows.trans
    (h : Grows r s)
    (h' : Grows s t) :
    Grows r t where
  graph hg := h'.graph (h.graph hg)
  parent hg := (h'.parent (h.graph hg)).trans (h.parent hg)
  directed hg := (h'.directed (h.graph hg)).trans (h.directed hg)
  strict hg := (h'.strict (h.graph hg)).trans (h.strict hg)
  members hg :=
    List.Subset.trans (h.members hg) (h'.members (h.graph hg))

theorem SameTree.grows
    (hSame : SameTree r s)
    (hMembers :
      ∀ g, (r.graph g).members ⊆ (s.graph g).members) :
    Grows r s where
  graph hg := (hSame.hasGraph _).mpr hg
  parent _ := hSame.parent _
  directed _ := hSame.directed _
  strict _ := hSame.strict _
  members _ := hMembers _

theorem SameShape.grows
    (h : SameShape r s) :
    Grows r s := by
  apply h.tree.grows
  intro g
  rw [h.nodes.members]
  exact List.Subset.refl _

/- The graphs around a graph are there from the beginning. -/
theorem Grows.lineage_eq
    (h : Grows r s)
    (hForest : r.IsForest)
    (hForest' : s.IsForest)
    {g : GraphId}
    (hg : r.HasGraph g) :
    s.lineage g = r.lineage g := by
  induction g, hg using hForest.ascending with
  | step g hg ih =>
      have hParent' := h.parent hg
      cases hParent : (r.graph g).parent with
      | none =>
          rw [hParent] at hParent'
          rw [IsForest.lineage_of_root hg hParent,
            IsForest.lineage_of_root (h.graph hg) hParent']
      | some parent =>
          rw [hParent] at hParent'
          rw [hForest.lineage_of_parent hParent,
            hForest'.lineage_of_parent hParent', ih parent hParent]

/- What is inside a graph stays there. -/
theorem Grows.extent_subset
    (h : Grows r s)
    (hForest : r.IsForest)
    (hForest' : s.IsForest)
    {g : GraphId}
    (hg : r.HasGraph g) :
    r.extent g ⊆ s.extent g := by
  intro f hf
  rcases (hForest.mem_extent hg).mp hf with ⟨hf, hIn⟩
  rw [← h.lineage_eq hForest hForest' hf] at hIn
  exact (hForest'.mem_extent (h.graph hg)).mpr ⟨h.graph hf, hIn⟩

theorem grows_addMember
    {g : GraphId}
    (hg : r.HasGraph g)
    (n : NodeId) :
    Grows r (r.addMember g n) := by
  apply (sameTree_addMember g n).grows
  intro h
  by_cases hEq : h = g
  · rw [hEq, addMember, graph_modifyGraph hg, if_pos rfl,
      addMember_eq]
    split
    · exact List.Subset.refl _
    · exact List.subset_append_left _ _
  · rw [addMember, graph_modifyGraph_of_ne hEq]
    exact List.Subset.refl _

theorem grows_addNode
    (g : GraphId)
    (name : String)
    (attributes : AttributeTable) :
    Grows r (r.addNode g name attributes).2 := by
  apply (sameTree_addNode g name attributes).grows
  intro h
  rw [view_graph_addNode g _ _ Graph.members fun _ _ _ => rfl]
  exact List.Subset.refl _

theorem sameTree_declareNode
    (g : GraphId)
    (name : String) :
    SameTree r (r.declareNode g name) :=
  (sameTree_addNode g name _).trans (sameTree_addMember g _)

theorem grows_declareNode
    {g : GraphId}
    (hg : r.HasGraph g)
    (name : String) :
    Grows r (r.declareNode g name) := by
  have hNode := grows_addNode (r := r) g name
    (r.graph g).nodeDefaults
  exact hNode.trans (grows_addMember (hNode.graph hg) _)

/- A node that is declared is the only new one. -/
theorem hasNode_declareNode
    (scope : GraphId)
    (name : String)
    (n : NodeId) :
    (r.declareNode scope name).HasNode n ↔
      r.HasNode n ∨ n = r.nextNode := by
  have hIds :
      (r.declareNode scope name).nodeIds =
        r.nodeIds ++ [r.nextNode] :=
    nodeIds_addNode scope name _
  rw [← mem_nodeIds, hIds, List.mem_append, mem_nodeIds,
    List.mem_singleton]

theorem node_declareNode
    (scope : GraphId)
    (name : String)
    (n : NodeId) :
    (r.declareNode scope name).node n =
      if n = r.nextNode then
        { name := name
          owner := scope
          attributes := (r.graph scope).nodeDefaults }
      else
        r.node n :=
  node_addNode scope name _ n

theorem node_declareNode_of_hasNode
    {n : NodeId}
    (hn : r.HasNode n)
    (scope : GraphId)
    (name : String) :
    (r.declareNode scope name).node n = r.node n := by
  rw [node_declareNode, if_neg hn.ne_next]

theorem grows_addGraph
    {graph : Graph}
    {parent : Option GraphId}
    (hParent : ∀ g, parent = some g → r.HasGraph g) :
    Grows r (r.addGraph graph parent).2 where
  graph hg := (hasGraph_addGraph _).mpr (.inl hg)
  parent hg :=
    view_addGraph_of_hasGraph Graph.parent hParent
      (fun _ _ => rfl) hg
  directed hg :=
    view_addGraph_of_hasGraph Graph.directed hParent
      (fun _ _ => rfl) hg
  strict hg :=
    view_addGraph_of_hasGraph Graph.strict hParent
      (fun _ _ => rfl) hg
  members hg := by
    rw [view_addGraph_of_hasGraph Graph.members hParent
      (fun _ _ => rfl) hg]
    exact List.Subset.refl _

theorem grows_addEdge
    (g : GraphId)
    (tail head : NodeId)
    (attributes : AttributeTable) :
    Grows r (r.addEdge g tail head attributes).2 := by
  apply (sameTree_addEdge g tail head attributes).grows
  intro h
  rw [(sameNodes_addEdge g tail head attributes).members]
  exact List.Subset.refl _

------------------------------------------------------------
-- Changes
------------------------------------------------------------

section Changes

variable {IsGood : Value → Prop}

/- A change adds one graph, or leaves the tree as it is. -/
theorem Change.tree_cases
    (h : Change IsGood r s) :
    (∃ graph parent,
        r.MayAdd graph parent ∧
          s = (r.addGraph graph parent).2) ∨
      SameTree r s := by
  cases h with
  | root name directed strict =>
      exact .inl ⟨_, _, .root r name directed strict, rfl⟩
  | child scope name hScope hNew =>
      exact .inl ⟨_, _, .child hScope hNew, rfl⟩
  | node scope name hScope hNew =>
      exact .inr (sameTree_declareNode scope name)
  | member scope n hScope hMay =>
      exact .inr (sameTree_addMember scope n)
  | edge scope tail head attributes =>
      exact .inr (sameTree_addEdge scope tail head attributes)
  | setGraph g attributes =>
      exact .inr (sameShape_setGraph g attributes).tree
  | setDefaults g kind attributes =>
      exact .inr (sameShape_setDefaults g kind attributes).tree
  | setNode n attributes =>
      exact .inr (sameShape_setNode n attributes).tree
  | setEdge e attributes =>
      exact .inr (sameShape_setEdge e attributes).tree
  | aside _ hGraphs hNodes hEdges hRoots =>
      exact .inr
        (sameShape_aside hGraphs hNodes hEdges hRoots).tree

theorem Change.isForest
    (h : Change IsGood r s)
    (hForest : r.IsForest) :
    s.IsForest := by
  rcases h.tree_cases with ⟨graph, parent, hMay, rfl⟩ | hSame
  · exact hForest.addGraph hMay
  · exact hForest.of_sameTree hSame

theorem Change.isUniform
    (h : Change IsGood r s)
    (hForest : r.IsForest)
    (hUniform : r.IsUniform) :
    s.IsUniform := by
  rcases h.tree_cases with ⟨graph, parent, hMay, rfl⟩ | hSame
  · exact hUniform.addGraph hForest hMay
  · exact hUniform.of_sameTree hSame

theorem Change.grows
    (h : Change IsGood r s) :
    Grows r s := by
  cases h with
  | root name directed strict =>
      exact grows_addGraph nofun
  | child scope name hScope hNew =>
      exact grows_addGraph fun _ hEq =>
        Option.some.inj hEq ▸ hScope
  | node scope name hScope hNew =>
      exact grows_declareNode hScope name
  | member scope n hScope hMay =>
      exact grows_addMember hScope n
  | edge scope tail head attributes =>
      exact grows_addEdge scope tail head attributes
  | setGraph g attributes =>
      exact (sameShape_setGraph g attributes).grows
  | setDefaults g kind attributes =>
      exact (sameShape_setDefaults g kind attributes).grows
  | setNode n attributes =>
      exact (sameShape_setNode n attributes).grows
  | setEdge e attributes =>
      exact (sameShape_setEdge e attributes).grows
  | aside _ hGraphs hNodes hEdges hRoots =>
      exact (sameShape_aside hGraphs hNodes hEdges hRoots).grows

theorem Changes.grows
    (h : Changes IsGood r s) :
    Grows r s := by
  induction h with
  | refl => exact .refl r
  | tail _ hChange ih => exact ih.trans hChange.grows

end Changes

end Registry

end DotLang
