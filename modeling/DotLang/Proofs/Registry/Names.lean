import DotLang.Proofs.Registry.Views
import DotLang.Registry.Query

/-
  This file says what a lookup in a registry finds, and when it
  finds nothing.

  A node is looked up by its name in the index of a graph.  What
  is found there is the last of the listed nodes with the name,
  as long as the index is kept in step with the list.

  Key definitions include:
    * `Registry.IsIndexed`

  Key theorems include:
    * `Registry.IsIndexed.localNode?_eq_some_iff`
    * `Registry.IsIndexed.resolveNode?_eq_none_iff`
    * `Registry.IsIndexed.exists_of_resolveNode?_eq_some`
    * `Registry.IsIndexed.resolveNode?_eq_some_of_unique`
    * `Registry.findEdge?_eq_none_iff`
-/

namespace DotLang

namespace Registry

variable {F : Factory} {r : Registry F}

------------------------------------------------------------
-- Indexes
------------------------------------------------------------

/-
  The index and the set of each graph tell the same as its lists.
  The index has the last of the nodes with a name, and the set
  has the members.
-/
structure IsIndexed (r : Registry F) : Prop where
  hasNode :
    ∀ {g : GraphId} {n : NodeId},
      n ∈ (r.graph g).nodes → r.HasNode n
  nodeIndex_eq :
    ∀ (g : GraphId) (name : String),
      (r.graph g).nodeIndex[name]? =
        (r.graph g).nodes.reverse.find? fun n =>
          (r.node n).name = name
  mem_memberSet :
    ∀ (g : GraphId) (n : NodeId),
      n ∈ (r.graph g).memberSet ↔ n ∈ (r.graph g).members

------------------------------------------------------------
-- Nodes
------------------------------------------------------------

/- The graphs around a graph are asked first. -/
theorem resolveNode?_eq
    (r : Registry F)
    (g : GraphId)
    (name : String) :
    r.resolveNode? g name =
      (r.lineage g ++ r.subgraphs g).findSome? fun h =>
        r.localNode? h name := by
  rw [List.findSome?_append]
  rfl

namespace IsIndexed

variable {g : GraphId} {name : String} {n : NodeId}

theorem isMember_iff
    (hIndexed : r.IsIndexed) :
    (r.graph g).isMember n = true ↔ n ∈ (r.graph g).members := by
  rw [Graph.isMember, Std.ExtTreeSet.contains_iff_mem,
    hIndexed.mem_memberSet]

theorem localNode?_eq
    (hIndexed : r.IsIndexed)
    (g : GraphId)
    (name : String) :
    r.localNode? g name =
      (r.graph g).nodes.reverse.find? fun n =>
        (r.node n).name = name :=
  hIndexed.nodeIndex_eq g name

/- The last node with a name has no other such node behind it. -/
theorem localNode?_eq_some_iff
    (hIndexed : r.IsIndexed) :
    r.localNode? g name = some n ↔
      ∃ before after,
        (r.graph g).nodes = before ++ n :: after ∧
          (r.node n).name = name ∧
          ∀ m ∈ after, (r.node m).name ≠ name := by
  simp only [hIndexed.localNode?_eq, List.find?_eq_some_iff_append,
    decide_eq_true_eq, Bool.not_eq_true', decide_eq_false_iff_not]
  constructor
  · rintro ⟨hName, after, before, hReverse, hAfter⟩
    refine ⟨before.reverse, after.reverse, ?_, hName, ?_⟩
    · rw [← List.reverse_reverse (r.graph g).nodes, hReverse]
      simp
    · intro m hm
      exact hAfter m (List.mem_reverse.mp hm)
  · rintro ⟨before, after, hNodes, hName, hAfter⟩
    refine ⟨hName, after.reverse, before.reverse, ?_, ?_⟩
    · rw [hNodes]
      simp
    · intro m hm
      exact hAfter m (List.mem_reverse.mp hm)

theorem localNode?_eq_none_iff
    (hIndexed : r.IsIndexed) :
    r.localNode? g name = none ↔
      ∀ n ∈ (r.graph g).nodes, (r.node n).name ≠ name := by
  simp [hIndexed.localNode?_eq]

theorem mem_of_localNode?_eq_some
    (hIndexed : r.IsIndexed)
    (h : r.localNode? g name = some n) :
    n ∈ (r.graph g).nodes ∧ (r.node n).name = name := by
  rcases hIndexed.localNode?_eq_some_iff.mp h with
    ⟨before, after, hNodes, hName, -⟩
  rw [hNodes]
  exact ⟨List.mem_append_right _ List.mem_cons_self, hName⟩

theorem resolveNode?_eq_none_iff
    (hIndexed : r.IsIndexed) :
    r.resolveNode? g name = none ↔
      ∀ h ∈ r.lineage g ++ r.subgraphs g,
        ∀ n ∈ (r.graph h).nodes, (r.node n).name ≠ name := by
  rw [resolveNode?_eq, List.findSome?_eq_none_iff]
  simp only [hIndexed.localNode?_eq_none_iff]

theorem exists_of_resolveNode?_eq_some
    (hIndexed : r.IsIndexed)
    (hFind : r.resolveNode? g name = some n) :
    ∃ h ∈ r.lineage g ++ r.subgraphs g,
      n ∈ (r.graph h).nodes ∧ (r.node n).name = name := by
  rw [resolveNode?_eq] at hFind
  rcases List.exists_of_findSome?_eq_some hFind with
    ⟨h, hMem, hLocal⟩
  exact ⟨h, hMem, hIndexed.mem_of_localNode?_eq_some hLocal⟩

/- A name that only one node bears stands for that node. -/
theorem resolveNode?_eq_some_of_unique
    (hIndexed : r.IsIndexed)
    {h : GraphId}
    (hMem : h ∈ r.lineage g ++ r.subgraphs g)
    (hNode : n ∈ (r.graph h).nodes)
    (hOnly :
      ∀ h ∈ r.lineage g ++ r.subgraphs g,
        ∀ m ∈ (r.graph h).nodes,
          (r.node m).name = (r.node n).name → m = n) :
    r.resolveNode? g (r.node n).name = some n := by
  cases hFind : r.resolveNode? g (r.node n).name with
  | none =>
      exact absurd rfl
        (hIndexed.resolveNode?_eq_none_iff.mp hFind h hMem n hNode)
  | some m =>
      rcases hIndexed.exists_of_resolveNode?_eq_some hFind with
        ⟨h', hMem', hNode', hName⟩
      rw [hOnly h' hMem' m hNode' hName]

end IsIndexed

/-
  Names stand for the same in registries whose graphs lie the
  same way and have the same indexes.
-/
section Congruence

variable {G : Factory} {s : Registry G}

theorem lineageWithin_congr
    (hParent : ∀ g, (s.graph g).parent = (r.graph g).parent)
    (bound : Nat)
    (g : GraphId) :
    s.lineageWithin bound g = r.lineageWithin bound g := by
  induction bound generalizing g with
  | zero => rfl
  | succ bound ih => simp only [lineageWithin, hParent, ih]

theorem walkWithin_congr
    (hChildren : ∀ g, (s.graph g).children = (r.graph g).children)
    (bound : Nat)
    (pending : List GraphId) :
    s.walkWithin bound pending = r.walkWithin bound pending := by
  induction bound generalizing pending with
  | zero => simp [walkWithin]
  | succ bound ih =>
      cases pending with
      | nil => simp [walkWithin]
      | cons g pending => simp only [walkWithin, hChildren, ih]

theorem resolveNode?_congr
    (hSize : s.graphs.size = r.graphs.size)
    (hParent : ∀ g, (s.graph g).parent = (r.graph g).parent)
    (hChildren : ∀ g, (s.graph g).children = (r.graph g).children)
    (hIndex : ∀ g, (s.graph g).nodeIndex = (r.graph g).nodeIndex)
    (g : GraphId)
    (name : String) :
    s.resolveNode? g name = r.resolveNode? g name := by
  simp only [resolveNode?, findNode?, findNestedNode?, lineage,
    subgraphs, localNode?, hSize, lineageWithin_congr hParent,
    walkWithin_congr hChildren, hChildren, hIndex]

end Congruence

------------------------------------------------------------
-- Children
------------------------------------------------------------

theorem findChild?_eq_none_iff
    {g : GraphId}
    {name : String} :
    r.findChild? g name = none ↔
      ∀ c ∈ (r.graph g).children, (r.graph c).name ≠ name := by
  simp [findChild?]

theorem mem_of_findChild?_eq_some
    {g c : GraphId}
    {name : String}
    (h : r.findChild? g name = some c) :
    c ∈ (r.graph g).children ∧ (r.graph c).name = name := by
  constructor
  · exact List.mem_of_find?_eq_some h
  · simpa using List.find?_some h

------------------------------------------------------------
-- Edges
------------------------------------------------------------

theorem findEdge?_eq_none_iff
    {tail head : NodeId} :
    r.findEdge? tail head = none ↔
      (∀ e ∈ (r.node tail).outEdges, (r.edge e).head ≠ head) ∧
        ∀ e ∈ (r.node head).outEdges,
          (r.edge e).directed = false → (r.edge e).head ≠ tail := by
  simp [findEdge?]

/- An edge that is found leads out of one of the two nodes. -/
theorem mem_of_findEdge?_eq_some
    {tail head : NodeId}
    {e : EdgeId}
    (h : r.findEdge? tail head = some e) :
    e ∈ (r.node tail).outEdges ∨ e ∈ (r.node head).outEdges := by
  rcases Option.or_eq_some_iff.mp h with hForward | ⟨-, hBackward⟩
  · exact .inl (List.mem_of_find?_eq_some hForward)
  · exact .inr (List.mem_of_find?_eq_some hBackward)

end Registry

end DotLang
