import DotLang.Proofs.Registry.Scoping

/-
  This file proves how the edges of a registry hang together as
  statements run: where they are listed, what they connect, and
  that strict graphs have no two edges in one place.

  Key definitions include:
    * `Edge.IsParallel`
    * `Registry.IsLinked`

  Key theorems include:
    * `Registry.Change.isLinked`
-/

------------------------------------------------------------
-- Rules for Edges
------------------------------------------------------------

namespace DotLang

/- Both edges connect the same nodes in the same way. -/
def Edge.IsParallel (e d : Edge) : Prop :=
  e.tail = d.tail ∧ e.head = d.head ∨
    e.directed = false ∧ d.directed = false ∧
      e.tail = d.head ∧ e.head = d.tail

theorem Edge.IsParallel.symm
    {e d : Edge}
    (h : e.IsParallel d) :
    d.IsParallel e := by
  rcases h with ⟨hTail, hHead⟩ | ⟨he, hd, hTail, hHead⟩
  · exact .inl ⟨hTail.symm, hHead.symm⟩
  · exact .inr ⟨hd, he, hHead.symm, hTail.symm⟩

namespace Registry

variable {F : Factory} {r s : Registry F}

/-
  What holds for edges.  The edges of a graph and those out of a
  node are listed as they were made.
-/
structure IsLinked (r : Registry F) : Prop where
  edges_eq :
    ∀ g : GraphId,
      (r.graph g).edges =
        r.edgeIds.filter fun e => (r.edge e).owner = g
  outEdges_eq :
    ∀ n : NodeId,
      (r.node n).outEdges =
        r.edgeIds.filter fun e => (r.edge e).tail = n
  tail_mem :
    ∀ {e : EdgeId},
      r.HasEdge e →
        (r.edge e).tail ∈ (r.graph (r.edge e).owner).members
  head_mem :
    ∀ {e : EdgeId},
      r.HasEdge e →
        (r.edge e).head ∈ (r.graph (r.edge e).owner).members
  directed :
    ∀ {e : EdgeId},
      r.HasEdge e →
        (r.edge e).directed =
          (r.graph (r.edge e).owner).directed
  simple :
    ∀ {e d : EdgeId},
      r.HasEdge e →
        r.HasEdge d →
        (r.graph (r.edge e).owner).strict = true →
        (r.graph (r.edge d).owner).strict = true →
        (r.edge e).IsParallel (r.edge d) →
        e = d

namespace IsLinked

variable {scope g : GraphId} {n tail head : NodeId} {e : EdgeId}

theorem mem_edges
    (hLinked : r.IsLinked) :
    e ∈ (r.graph g).edges ↔ r.HasEdge e ∧ (r.edge e).owner = g := by
  rw [hLinked.edges_eq, List.mem_filter, mem_edgeIds]
  simp

theorem mem_outEdges
    (hLinked : r.IsLinked) :
    e ∈ (r.node n).outEdges ↔
      r.HasEdge e ∧ (r.edge e).tail = n := by
  rw [hLinked.outEdges_eq, List.mem_filter, mem_edgeIds]
  simp

theorem nodup_edges
    (hLinked : r.IsLinked)
    (g : GraphId) :
    (r.graph g).edges.Nodup := by
  rw [hLinked.edges_eq]
  exact (nodup_edgeIds r).filter _

theorem hasOwner
    (hLinked : r.IsLinked)
    (he : r.HasEdge e) :
    r.HasGraph (r.edge e).owner :=
  hasGraph_of_mem_members (hLinked.tail_mem he)

------------------------------------------------------------
-- Edges Through Changes
------------------------------------------------------------

theorem of_sameEdges
    (hLinked : r.IsLinked)
    (hGrows : Grows r s)
    (hSame : SameEdges r s) :
    s.IsLinked where
  edges_eq g := by
    rw [hSame.edges, hSame.edgeIds, hLinked.edges_eq]
    simp only [hSame.owner]
  outEdges_eq n := by
    rw [hSame.outEdges, hSame.edgeIds, hLinked.outEdges_eq]
    simp only [hSame.tail]
  tail_mem he := by
    rw [hSame.hasEdge] at he
    rw [hSame.tail, hSame.owner]
    exact hGrows.members (hLinked.hasOwner he) (hLinked.tail_mem he)
  head_mem he := by
    rw [hSame.hasEdge] at he
    rw [hSame.head, hSame.owner]
    exact hGrows.members (hLinked.hasOwner he) (hLinked.head_mem he)
  directed he := by
    rw [hSame.hasEdge] at he
    rw [hSame.directed, hSame.owner,
      hGrows.directed (hLinked.hasOwner he)]
    exact hLinked.directed he
  simple he hd hStrict hStrict' hParallel := by
    rw [hSame.hasEdge] at he hd
    rw [hSame.owner, hGrows.strict (hLinked.hasOwner he)] at hStrict
    rw [hSame.owner, hGrows.strict (hLinked.hasOwner hd)] at hStrict'
    unfold Edge.IsParallel at hParallel
    simp only [hSame.tail, hSame.head, hSame.directed] at hParallel
    exact hLinked.simple he hd hStrict hStrict' hParallel

/- Where none is found, no edge is parallel to a new one. -/
theorem not_isParallel_of_findEdge?_eq_none
    (hLinked : r.IsLinked)
    {edge : Edge}
    (hNone : r.findEdge? edge.tail edge.head = none)
    (he : r.HasEdge e) :
    ¬ (r.edge e).IsParallel edge := by
  rcases findEdge?_eq_none_iff.mp hNone with ⟨hForward, hBackward⟩
  rintro (⟨hTail, hHead⟩ | ⟨hPlain, -, hTail, hHead⟩)
  · exact hForward e (hLinked.mem_outEdges.mpr ⟨he, hTail⟩) hHead
  · exact hBackward e (hLinked.mem_outEdges.mpr ⟨he, hTail⟩) hPlain
      hHead

/- In a strict graph the new edge is the first one in its place. -/
theorem simple_addEdge
    (hLinked : r.IsLinked)
    (hNew :
      (r.graph scope).strict = true → r.findEdge? tail head = none)
    (attributes : AttributeTable)
    {e d : EdgeId}
    (he : (r.addEdge scope tail head attributes).2.HasEdge e)
    (hd : (r.addEdge scope tail head attributes).2.HasEdge d)
    (hStrict :
      (r.graph ((r.addEdge scope tail head
        attributes).2.edge e).owner).strict = true)
    (hStrict' :
      (r.graph ((r.addEdge scope tail head
        attributes).2.edge d).owner).strict = true)
    (hParallel :
      ((r.addEdge scope tail head attributes).2.edge e).IsParallel
        ((r.addEdge scope tail head attributes).2.edge d)) :
    e = d := by
  rw [edge_addEdge] at hStrict hStrict' hParallel
  rw [edge_addEdge] at hParallel
  rcases (hasEdge_addEdge scope tail head attributes e).mp he with
    he | rfl
  · rw [if_neg he.ne_next] at hStrict hParallel
    rcases (hasEdge_addEdge scope tail head attributes d).mp hd with
      hd | rfl
    · rw [if_neg hd.ne_next] at hStrict' hParallel
      exact hLinked.simple he hd hStrict hStrict' hParallel
    · rw [if_pos rfl] at hStrict' hParallel
      exact absurd hParallel
        (hLinked.not_isParallel_of_findEdge?_eq_none
          (hNew hStrict') he)
  · rw [if_pos rfl] at hStrict hParallel
    rcases (hasEdge_addEdge scope tail head attributes d).mp hd with
      hd | rfl
    · rw [if_neg hd.ne_next] at hParallel
      exact absurd hParallel.symm
        (hLinked.not_isParallel_of_findEdge?_eq_none
          (hNew hStrict) hd)
    · rfl

theorem addEdge
    (hLinked : r.IsLinked)
    (hScoped : r.IsScoped)
    (hScope : r.HasGraph scope)
    (hTail : tail ∈ (r.graph scope).members)
    (hHead : head ∈ (r.graph scope).members)
    (hNew :
      (r.graph scope).strict = true → r.findEdge? tail head = none)
    (attributes : AttributeTable) :
    (r.addEdge scope tail head attributes).2.IsLinked := by
  have hTree := sameTree_addEdge (r := r) scope tail head attributes
  have hMembers := (sameNodes_addEdge (r := r) scope tail head
    attributes).members
  have hHas := hasEdge_addEdge (r := r) scope tail head attributes
  constructor
  · intro g
    rw [filter_addEdge scope tail head attributes Edge.owner,
      ← hLinked.edges_eq, graph_addEdge attributes hScope]
    by_cases hEq : g = scope
    · simp [hEq]
    · simp [hEq]
  · intro n
    rw [filter_addEdge scope tail head attributes Edge.tail,
      ← hLinked.outEdges_eq, node_addEdge attributes
        (hScoped.hasNode hTail) (hScoped.hasNode hHead)]
    by_cases hEq : n = tail
    · simp [hEq]
    · simp [hEq]
  · intro e he
    rw [hMembers, edge_addEdge]
    rcases (hHas e).mp he with he | rfl
    · rw [if_neg he.ne_next]
      exact hLinked.tail_mem he
    · rw [if_pos rfl]
      exact hTail
  · intro e he
    rw [hMembers, edge_addEdge]
    rcases (hHas e).mp he with he | rfl
    · rw [if_neg he.ne_next]
      exact hLinked.head_mem he
    · rw [if_pos rfl]
      exact hHead
  · intro e he
    rw [hTree.directed, edge_addEdge]
    rcases (hHas e).mp he with he | rfl
    · rw [if_neg he.ne_next]
      exact hLinked.directed he
    · rw [if_pos rfl]
  · intro e d he hd hStrict hStrict' hParallel
    rw [hTree.strict] at hStrict hStrict'
    exact hLinked.simple_addEdge hNew attributes he hd hStrict
      hStrict' hParallel

end IsLinked

------------------------------------------------------------
-- Changes
------------------------------------------------------------

/- Changes keep the rules for edges. -/
theorem Change.isLinked
    {IsGood : Value → Prop}
    (h : Change IsGood r s)
    (hScoped : r.IsScoped)
    (hLinked : r.IsLinked) :
    s.IsLinked := by
  have hKeep := hLinked.of_sameEdges h.grows
  cases h with
  | root name directed strict =>
      exact hKeep
        (sameEdges_addGraph nofun (Graph.isBlank_new _ _ _))
  | child scope name hScope hNew =>
      have hMay := MayAdd.child hScope hNew
      exact hKeep (sameEdges_addGraph hMay.hasParent hMay.isBlank)
  | node scope name hScope hNew =>
      exact hKeep ((sameEdges_addNode scope name _).trans
        (sameEdges_addMember scope _))
  | member scope n hScope hMay =>
      exact hKeep (sameEdges_addMember scope n)
  | edge scope tail head attributes hScope hTail hHead hNew =>
      exact hLinked.addEdge hScoped hScope hTail hHead hNew attributes
  | setGraph g attributes =>
      exact hKeep (sameShape_setGraph g attributes).edges
  | setDefaults g kind attributes =>
      exact hKeep (sameShape_setDefaults g kind attributes).edges
  | setNode n attributes =>
      exact hKeep (sameShape_setNode n attributes).edges
  | setEdge e attributes =>
      exact hKeep (sameShape_setEdge e attributes).edges
  | aside _ hGraphs hNodes hEdges hRoots =>
      exact hKeep (sameShape_aside hGraphs hNodes hEdges hRoots).edges

end Registry

end DotLang
