import DotLang.Proofs.Registry.Indexes
import DotLang.Proofs.SpanningForest.Selection

/-
  This file proves that the registry of a forest holds one graph
  with copies of the nodes and edges of the forest, in order.

  Key definitions include:
    * `Registry.IsForestCopy`

  Key theorems include:
    * `Registry.isForestCopy_ofForest`
-/

------------------------------------------------------------
-- Copies
------------------------------------------------------------

namespace DotLang

namespace Registry

variable {F : Factory} {r : Registry F} {g : GraphId}
variable {N : List NodeId} {C : List EdgeId}
variable {t : Registry .plain}

/- The handle of the only graph of a copy. -/
def copyRoot : GraphId :=
  ⟨0⟩

/-
  A registry with one graph, which is like the given one but not
  strict.  All its nodes are members of it.  The nodes are copies
  of the given nodes and the edges are copies of the given edges
  between the copies of their ends, each in its place.  The index
  and the set of the graph are those of its lists.
-/
structure IsForestCopy
    (r : Registry F)
    (g : GraphId)
    (N : List NodeId)
    (C : List EdgeId)
    (t : Registry .plain) : Prop where
  roots : t.roots = [copyRoot]
  graphIds : t.graphIds = [copyRoot]
  graph :
    t.graph copyRoot =
      { name := (r.graph g).name
        directed := (r.graph g).directed
        strict := false
        nodes := t.nodeIds
        nodeIndex := (t.graph copyRoot).nodeIndex
        members := t.nodeIds
        memberSet := (t.graph copyRoot).memberSet
        edges := t.edgeIds
        attributes := (r.graph g).attributes }
  isIndexed : t.IsIndexed
  nodeIds : t.nodeIds = (List.range N.length).map NodeId.mk
  node :
    ∀ {i : Nat} {n : NodeId},
      N[i]? = some n →
        (t.node ⟨i⟩).name = (r.node n).name ∧
          (t.node ⟨i⟩).owner = copyRoot ∧
          (t.node ⟨i⟩).attributes = (r.node n).attributes
  edgeIds : t.edgeIds = (List.range C.length).map EdgeId.mk
  edge :
    ∀ {i : Nat} {e : EdgeId},
      C[i]? = some e →
        t.edge ⟨i⟩ =
          { tail := ⟨N.idxOf (r.edge e).tail⟩
            head := ⟨N.idxOf (r.edge e).head⟩
            directed := (r.graph g).directed
            owner := copyRoot
            attributes := (r.edge e).attributes }

namespace IsForestCopy

theorem hasRoot
    (h : r.IsForestCopy g N C t) :
    t.HasGraph copyRoot := by
  rw [← mem_graphIds, h.graphIds]
  exact List.mem_cons_self

theorem nextNode_eq
    (h : r.IsForestCopy g N C t) :
    t.nextNode = ⟨N.length⟩ := by
  have hLength := congrArg List.length h.nodeIds
  simp only [Registry.nodeIds, List.length_map,
    List.length_range] at hLength
  exact congrArg NodeId.mk hLength

theorem nextEdge_eq
    (h : r.IsForestCopy g N C t) :
    t.nextEdge = ⟨C.length⟩ := by
  have hLength := congrArg List.length h.edgeIds
  simp only [Registry.edgeIds, List.length_map,
    List.length_range] at hLength
  exact congrArg EdgeId.mk hLength

/- The next node is copied before all edges. -/
theorem copyNode
    (h : r.IsForestCopy g N [] t)
    (n : NodeId) :
    ∃ u,
      r.copyNode copyRoot (t.nodeIds, t) n = (u.nodeIds, u) ∧
        r.IsForestCopy g (N ++ [n]) [] u := by
  have hRoot := h.hasRoot
  have hNext := h.nextNode_eq
  let added : Registry .plain :=
    (t.addNode copyRoot (r.node n).name (r.node n).attributes).2
  let u : Registry .plain := added.addMember copyRoot t.nextNode
  have hRoot' : added.HasGraph copyRoot :=
    (sameTree_addNode copyRoot _ _).hasGraph copyRoot |>.mpr hRoot
  have hAdded :
      added.graph copyRoot =
        { t.graph copyRoot with
          nodes := (t.graph copyRoot).nodes ++ [t.nextNode]
          nodeIndex := (added.graph copyRoot).nodeIndex } := by
    rw [graph_addNode _ _ hRoot, if_pos rfl]
  have hIndexed : added.IsIndexed := h.isIndexed.addNode hRoot _ _
  have hNew : t.nextNode ∉ (added.graph copyRoot).memberSet := by
    rw [hIndexed.mem_memberSet, hAdded, h.graph]
    exact fun hMem => (mem_nodeIds.mp hMem).ne_next rfl
  have hIds : u.nodeIds = t.nodeIds ++ [t.nextNode] :=
    nodeIds_addNode copyRoot _ _
  have hNode :
      ∀ m,
        u.node m =
          if m = t.nextNode then
            { name := (r.node n).name
              owner := copyRoot
              attributes := (r.node n).attributes }
          else
            t.node m :=
    node_addNode copyRoot _ _
  refine ⟨u, Prod.ext hIds.symm rfl, h.roots, ?_, ?_,
    hIndexed.addMember hRoot' _, ?_, ?_, h.edgeIds, nofun⟩
  · have hSame : u.graphIds = added.graphIds :=
      (sameTree_addMember copyRoot t.nextNode).graphIds
    rw [hSame, graphIds_addNode, h.graphIds]
  · have hMember :
        u.graph copyRoot =
          (added.graph copyRoot).addMember t.nextNode := by
      change (added.addMember copyRoot t.nextNode).graph _ = _
      rw [addMember, graph_modifyGraph hRoot', if_pos rfl]
    rw [hMember, addMember_eq, if_neg hNew, hAdded, hIds]
    rw [h.graph]
    rfl
  · rw [hIds, h.nodeIds, hNext, List.length_append]
    simp [List.range_succ]
  · intro i m hi
    rw [hNode, hNext]
    rcases getElem?_concat_eq_some_iff.mp hi with ⟨rfl, rfl⟩ | hOld
    · rw [if_pos rfl]
      exact ⟨rfl, rfl, rfl⟩
    · have hLt := (List.getElem?_eq_some_iff.mp hOld).1
      rw [if_neg fun hEq => hLt.ne (congrArg NodeId.index hEq)]
      exact h.node hOld

/- The copy of a node is in the place of the node. -/
theorem getD_placeOf
    {P : PlacedNodes}
    (h : r.IsForestCopy g P.nodes C t)
    (hP : P.IsPlaced)
    {n : NodeId}
    (hn : n ∈ P.nodes) :
    t.nodeIds.getD (P.placeOf n) default = ⟨P.nodes.idxOf n⟩ := by
  have hLt := hP.placeOf_lt hn
  rw [h.nodeIds, ← hP.placeOf_eq]
  simp [List.getD_eq_getElem?_getD, hLt]

/- The next edge is copied. -/
theorem copyEdge
    {P : PlacedNodes}
    (h : r.IsForestCopy g P.nodes C t)
    (hP : P.IsPlaced)
    {e : EdgeId}
    (he : EndsIn r.ends P.nodes e) :
    r.IsForestCopy g P.nodes (C ++ [e])
      (r.copyEdge copyRoot P t.nodeIds t e) := by
  have hRoot := h.hasRoot
  have hNext := h.nextEdge_eq
  let tail : NodeId := ⟨P.nodes.idxOf (r.edge e).tail⟩
  let head : NodeId := ⟨P.nodes.idxOf (r.edge e).head⟩
  have hCopy :
      r.copyEdge copyRoot P t.nodeIds t e =
        (t.addEdge copyRoot tail head (r.edge e).attributes).2 := by
    have hTail := h.getD_placeOf hP he.1
    have hHead := h.getD_placeOf hP he.2
    simp only [ends] at hTail hHead
    rw [Registry.copyEdge, hTail, hHead]
  have hNodes :=
    sameNodes_addEdge (r := t) copyRoot tail head
      (r.edge e).attributes
  have hEdges :=
    edgeIds_addEdge (r := t) copyRoot tail head
      (r.edge e).attributes
  have hGraph :
      (t.addEdge copyRoot tail head
          (r.edge e).attributes).2.graph copyRoot =
        { t.graph copyRoot with
          edges := (t.graph copyRoot).edges ++ [t.nextEdge] } := by
    refine (graph_addEdge (r.edge e).attributes hRoot copyRoot).trans ?_
    rw [if_pos rfl]
  rw [hCopy]
  refine ⟨h.roots, ?_, ?_, h.isIndexed.of_sameNodes hNodes,
    hNodes.nodeIds.trans h.nodeIds, ?_, ?_, ?_⟩
  · exact (graphIds_addEdge copyRoot tail head
      (r.edge e).attributes).trans h.graphIds
  · rw [hGraph, hNodes.nodeIds, hEdges]
    rw [h.graph]
  · intro i n hi
    rw [hNodes.name, hNodes.owner,
      view_node_addEdge copyRoot tail head (r.edge e).attributes
        Node.attributes (fun _ _ => rfl) fun _ _ => rfl]
    exact h.node hi
  · rw [hEdges, h.edgeIds, hNext, List.length_append]
    simp [List.range_succ]
  · intro i d hi
    refine (edge_addEdge copyRoot tail head
      (r.edge e).attributes ⟨i⟩).trans ?_
    rw [hNext, h.graph]
    rcases getElem?_concat_eq_some_iff.mp hi with ⟨rfl, rfl⟩ | hOld
    · rw [if_pos rfl]
    · have hLt := (List.getElem?_eq_some_iff.mp hOld).1
      rw [if_neg fun hEq => hLt.ne (congrArg EdgeId.index hEq)]
      exact h.edge hOld

theorem foldl_copyNode
    (h : r.IsForestCopy g N [] t)
    (nodes : List NodeId) :
    ∃ u,
      nodes.foldl (r.copyNode copyRoot) (t.nodeIds, t) =
          (u.nodeIds, u) ∧
        r.IsForestCopy g (N ++ nodes) [] u := by
  induction nodes generalizing N t with
  | nil => exact ⟨t, rfl, by simpa using h⟩
  | cons n nodes ih =>
      rcases h.copyNode n with ⟨u, hNode, hCopy⟩
      have hRest := ih hCopy
      rw [List.append_assoc, List.singleton_append] at hRest
      rwa [List.foldl_cons, hNode]

theorem foldl_copyEdge
    {P : PlacedNodes}
    (h : r.IsForestCopy g P.nodes C t)
    (hP : P.IsPlaced)
    {edges : List EdgeId}
    (hEdges : ∀ e ∈ edges, EndsIn r.ends P.nodes e) :
    r.IsForestCopy g P.nodes (C ++ edges)
      (edges.foldl (r.copyEdge copyRoot P t.nodeIds) t) := by
  induction edges generalizing C t with
  | nil => simpa using h
  | cons e edges ih =>
      rcases List.forall_mem_cons.mp hEdges with ⟨he, hRest⟩
      have hCopy := h.copyEdge hP he
      have hAll := ih hCopy hRest
      rwa [List.append_assoc, List.singleton_append, hCopy.nodeIds,
        ← h.nodeIds] at hAll

end IsForestCopy

/- A table with distinct names is copied as it is. -/
theorem isForestCopy_ofForest
    (hTable : (r.graph g).attributes.IsMap fun _ => True)
    {forest : SpanningForest}
    (hNodes : forest.IsPlaced)
    (hEdges : ∀ e ∈ forest.edges, EndsIn r.ends forest.nodes e) :
    r.IsForestCopy g forest.nodes forest.edges
      (r.ofForest g forest) := by
  let graph : Graph :=
    .new (r.graph g).name (r.graph g).directed false
  let bare : Registry .plain :=
    ((Registry.plain {}).addGraph graph none).2
  let start : Registry .plain :=
    bare.modifyGraph copyRoot
      (Graph.setAttributes (r.graph g).attributes.entries)
  have hBare : bare.HasGraph copyRoot :=
    Nat.zero_lt_one
  have hSame : SameNodes (Registry.plain {}) bare :=
    sameNodes_addGraph nofun (Graph.isBlank_new _ _ _)
  have hIndexed : bare.IsIndexed :=
    (isIndexed_empty (F := .plain) () {}).of_sameNodes hSame
  have hStart : r.IsForestCopy g [] [] start := by
    refine ⟨rfl, rfl, ?_,
      hIndexed.of_sameNodes (sameShape_setGraph _ _).nodes, rfl,
      nofun, rfl, nofun⟩
    rw [graph_modifyGraph hBare, if_pos rfl]
    have hMerged := AttributeTable.setAll_empty hTable
    change ({ Graph.new _ _ _ with
      attributes := AttributeTable.empty.setAll _ } : Graph) = _
    rw [hMerged]
    rfl
  have hForest :
      r.ofForest g forest =
        let made :=
          forest.nodes.foldl (r.copyNode copyRoot)
            (start.nodeIds, start)
        forest.edges.foldl
          (r.copyEdge copyRoot forest.toPlacedNodes made.1) made.2 :=
    rfl
  rcases hStart.foldl_copyNode forest.nodes with ⟨t, hNodes', hCopy⟩
  rw [hForest, hNodes']
  exact hCopy.foldl_copyEdge hNodes hEdges

end Registry

end DotLang
