import DotLang.Proofs.Registry.Consistency

/-
  This file proves that the lists, the back links, the indexes
  and the data in a registry stay in step with each other,
  whatever texts are read into it and whatever is added to it and
  changed in it.

  Key definitions include:
    * `Registry.KeepsHandles`
    * `Registry.KeepsViews`

  Key theorems include:
    * `Registry.IsConsistent.keepsViews`
    * `Registry.keepsViews_of_operates`
-/

------------------------------------------------------------
-- Views
------------------------------------------------------------

namespace DotLang

namespace Registry

variable {F : Factory} {r : Registry F}

/- All handles that a registry stores are in use. -/
structure KeepsHandles (r : Registry F) : Prop where
  parent :
    ∀ {g p : GraphId}, (r.graph g).parent = some p → r.HasGraph p
  children :
    ∀ {g c : GraphId}, c ∈ (r.graph g).children → r.HasGraph c
  nodes :
    ∀ {g : GraphId} {n : NodeId},
      n ∈ (r.graph g).nodes → r.HasNode n
  nodeIndex :
    ∀ {g : GraphId} {name : String} {n : NodeId},
      (r.graph g).nodeIndex[name]? = some n → r.HasNode n
  members :
    ∀ {g : GraphId} {n : NodeId},
      n ∈ (r.graph g).members → r.HasNode n
  memberSet :
    ∀ {g : GraphId} {n : NodeId},
      n ∈ (r.graph g).memberSet → r.HasNode n
  edges :
    ∀ {g : GraphId} {e : EdgeId},
      e ∈ (r.graph g).edges → r.HasEdge e
  nodeOwner :
    ∀ {n : NodeId}, r.HasNode n → r.HasGraph (r.node n).owner
  outEdges :
    ∀ {n : NodeId} {e : EdgeId},
      e ∈ (r.node n).outEdges → r.HasEdge e
  inEdges :
    ∀ {n : NodeId} {e : EdgeId},
      e ∈ (r.node n).inEdges → r.HasEdge e
  edgeOwner :
    ∀ {e : EdgeId}, r.HasEdge e → r.HasGraph (r.edge e).owner
  tail : ∀ {e : EdgeId}, r.HasEdge e → r.HasNode (r.edge e).tail
  head : ∀ {e : EdgeId}, r.HasEdge e → r.HasNode (r.edge e).head
  roots : ∀ {g : GraphId}, g ∈ r.roots → r.HasGraph g
  scope : ∀ {g : GraphId}, g ∈ r.scope → r.HasGraph g

/-
  The lists, links and indexes of a registry tell the same.
  Handles are listed in the order of their making.
-/
structure KeepsViews (r : Registry F) : Prop where
  handles : r.KeepsHandles
  mem_children_iff :
    ∀ g c : GraphId,
      c ∈ (r.graph g).children ↔ (r.graph c).parent = some g
  nodup_children : ∀ g : GraphId, (r.graph g).children.Nodup
  parent_lt :
    ∀ {g p : GraphId},
      (r.graph g).parent = some p → p.index < g.index
  roots_eq :
    r.roots = r.graphIds.filter fun g => (r.graph g).isRoot
  nodes_eq :
    ∀ g : GraphId,
      (r.graph g).nodes =
        r.nodeIds.filter fun n => (r.node n).owner = g
  edges_eq :
    ∀ g : GraphId,
      (r.graph g).edges =
        r.edgeIds.filter fun e => (r.edge e).owner = g
  outEdges_eq :
    ∀ n : NodeId,
      (r.node n).outEdges =
        r.edgeIds.filter fun e => (r.edge e).tail = n
  inEdges_eq :
    ∀ n : NodeId,
      (r.node n).inEdges =
        r.edgeIds.filter fun e => (r.edge e).head = n
  directed_iff :
    ∀ {e : EdgeId},
      r.HasEdge e →
        ((r.edge e).directed = true ↔
          (r.graph (r.edge e).owner).directed = true)
  nodup_members : ∀ g : GraphId, (r.graph g).members.Nodup
  isMember_iff :
    ∀ (g : GraphId) (n : NodeId),
      (r.graph g).isMember n = true ↔ n ∈ (r.graph g).members
  localNode?_eq_some_iff :
    ∀ (g : GraphId) (name : String) (n : NodeId),
      r.localNode? g name = some n ↔
        ∃ before after,
          (r.graph g).nodes = before ++ n :: after ∧
            (r.node n).name = name ∧
            ∀ m ∈ after, (r.node m).name ≠ name
  localNode?_eq_none_iff :
    ∀ (g : GraphId) (name : String),
      r.localNode? g name = none ↔
        ∀ n ∈ (r.graph g).nodes, (r.node n).name ≠ name
  graphData : r.graphData.size = r.graphs.size
  nodeData : r.nodeData.size = r.nodes.size
  edgeData : r.edgeData.size = r.edges.size

namespace IsConsistent

theorem keepsHandles
    (h : r.IsConsistent) :
    r.KeepsHandles where
  parent := h.isForest.hasGraph_parent
  children {g c} hc := by
    by_cases hg : r.HasGraph g
    · exact hasGraph_of_parent ((h.isForest.mem_children hg).mp hc)
    · rw [graph_of_not_hasGraph hg] at hc
      cases hc
  nodes := h.isIndexed.hasNode
  nodeIndex hn :=
    h.isIndexed.hasNode (h.isIndexed.mem_of_localNode?_eq_some hn).1
  members := h.listsNodes.hasNode
  memberSet hn :=
    h.listsNodes.hasNode ((h.isIndexed.mem_memberSet _ _).mp hn)
  edges he := (h.listsEdges.mem_edges.mp he).1
  nodeOwner := h.listsNodes.hasOwner
  outEdges he := (h.listsEdges.mem_outEdges.mp he).1
  inEdges he := by
    rw [h.listsEdges.inEdges_eq] at he
    exact mem_edgeIds.mp (List.mem_filter.mp he).1
  edgeOwner := h.listsEdges.hasOwner
  tail := h.listsEdges.hasTail
  head := h.listsEdges.hasHead
  roots hg := (h.isForest.mem_roots.mp hg).1
  scope hg := h.scope _ hg

theorem keepsViews
    (h : r.IsConsistent) :
    r.KeepsViews where
  handles := h.keepsHandles
  mem_children_iff g c := by
    by_cases hg : r.HasGraph g
    · exact h.isForest.mem_children hg
    · rw [graph_of_not_hasGraph hg]
      refine iff_of_false List.not_mem_nil ?_
      intro hParent
      exact hg (h.isForest.hasGraph_parent hParent)
  nodup_children g := by
    by_cases hg : r.HasGraph g
    · exact h.isForest.nodup_children hg
    · rw [graph_of_not_hasGraph hg]
      exact List.nodup_nil
  parent_lt := h.isForest.parent_lt
  roots_eq := by
    rw [h.isForest.roots_eq]
    apply List.filter_congr
    intro g _
    cases hParent : (r.graph g).parent <;> simp [Graph.isRoot, hParent]
  nodes_eq := h.listsNodes.nodes_eq
  edges_eq := h.listsEdges.edges_eq
  outEdges_eq := h.listsEdges.outEdges_eq
  inEdges_eq := h.listsEdges.inEdges_eq
  directed_iff he := by rw [h.listsEdges.directed he]
  nodup_members := h.listsNodes.nodup_members
  isMember_iff _ _ := h.isIndexed.isMember_iff
  localNode?_eq_some_iff _ _ _ := h.isIndexed.localNode?_eq_some_iff
  localNode?_eq_none_iff _ _ := h.isIndexed.localNode?_eq_none_iff
  graphData := h.carriesData.graphs
  nodeData := h.carriesData.nodes
  edgeData := h.carriesData.edges

end IsConsistent

------------------------------------------------------------
-- Operations
------------------------------------------------------------

/-
  Whatever texts are read and whatever steps are taken between
  them, in any order, all views of the registry tell the same.
-/
theorem keepsViews_of_operates
    (F : Factory)
    (factory : F.State)
    (options : Options)
    (r : Registry F)
    (hOperates : Operates (.empty factory options) r) :
    r.KeepsViews :=
  hOperates.isConsistent.keepsViews

/- Of two nodes with one name the index has the second one. -/
theorem keepsViews_of_twin :
    let r : Registry .plain :=
      (load (.empty () {}) "graph g \x7b a -- b \x7d").registry
    let s := (r.addNode ⟨0⟩ "a" .empty).2
    Operates (.empty () {}) s ∧
      s.KeepsViews ∧
      s.nodeNames (s.graph ⟨0⟩).nodes = ["a", "b", "a"] ∧
      (s.graph ⟨0⟩).nodeIndex["a"]? = some ⟨2⟩ ∧
      (s.graph ⟨0⟩).memberSet.toList = [⟨0⟩, ⟨1⟩] := by
  intro r s
  have hg : r.HasGraph ⟨0⟩ := by
    decide +kernel
  have hOperates : Operates (.empty () {}) s :=
    .step (.addNode r ⟨0⟩ "a" .empty hg) (.load _ .none)
  exact ⟨hOperates, keepsViews_of_operates .plain () {} s hOperates,
    by decide +kernel⟩

end Registry

end DotLang
