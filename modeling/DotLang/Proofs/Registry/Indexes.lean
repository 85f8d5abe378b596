import DotLang.Proofs.Registry.Change
import Mathlib.Data.List.Find

/-
  This file proves that the index and the set of each graph stay
  in step with its lists as a registry is worked on.

  A node that is made comes last in the list of its graph, and
  takes its name over in the index there.  A node is mentioned in
  the list of members and in the set at once, or in neither.

  Key theorems include:
    * `Registry.localNode?_addNode`
    * `Registry.IsIndexed.of_sameNodes`
    * `Registry.IsIndexed.addNode`
    * `Registry.IsIndexed.addMember`
-/

namespace DotLang

namespace Registry

variable {F : Factory} {r s : Registry F}

theorem isIndexed_empty
    (factory : F.State)
    (options : Options) :
    (empty factory options : Registry F).IsIndexed where
  hasNode := nofun
  nodeIndex_eq _ _ := Std.ExtTreeMap.getElem?_empty
  mem_memberSet _ _ :=
    iff_of_false Std.ExtTreeSet.not_mem_empty List.not_mem_nil

/- What makes no node and mentions none keeps the indexes right. -/
theorem IsIndexed.of_sameNodes
    (hIndexed : r.IsIndexed)
    (hSame : SameNodes r s) :
    s.IsIndexed where
  hasNode hn := by
    rw [hSame.nodes] at hn
    exact (hSame.hasNode _).mpr (hIndexed.hasNode hn)
  nodeIndex_eq g name := by
    rw [hSame.nodeIndex, hSame.nodes, hIndexed.nodeIndex_eq]
    simp only [hSame.name]
  mem_memberSet g n := by
    rw [hSame.memberSet, hSame.members, hIndexed.mem_memberSet]

------------------------------------------------------------
-- New Nodes
------------------------------------------------------------

/- A new node comes before all others of its name. -/
theorem localNode?_addNode
    {g : GraphId}
    (hg : r.HasGraph g)
    (name : String)
    (attributes : AttributeTable)
    (h : GraphId)
    (other : String) :
    (r.addNode g name attributes).2.localNode? h other =
      if h = g ∧ other = name then
        some r.nextNode
      else
        r.localNode? h other := by
  rw [localNode?, localNode?, graph_addNode name attributes hg]
  by_cases hEq : h = g
  · subst hEq
    rw [if_pos rfl, Std.ExtTreeMap.getElem?_insert]
    simp [eq_comm (a := other)]
  · simp [hEq]

theorem IsIndexed.addNode
    (hIndexed : r.IsIndexed)
    {g : GraphId}
    (hg : r.HasGraph g)
    (name : String)
    (attributes : AttributeTable) :
    (r.addNode g name attributes).2.IsIndexed := by
  have hHas := hasNode_addNode (r := r) g name attributes
  have hNode := node_addNode (r := r) g name attributes
  have hGraph := graph_addNode (r := r) name attributes hg
  constructor
  · intro h n hn
    rw [hGraph] at hn
    by_cases hEq : h = g
    · rw [if_pos hEq, List.mem_append, List.mem_singleton] at hn
      rcases hn with hOld | rfl
      · exact (hHas n).mpr (.inl (hIndexed.hasNode hOld))
      · exact (hHas _).mpr (.inr rfl)
    · rw [if_neg hEq] at hn
      exact (hHas n).mpr (.inl (hIndexed.hasNode hn))
  · intro h other
    -- old nodes keep their names, since their handles are in use
    have hOld :
        ∀ f,
          (r.graph f).nodes.reverse.find?
              (fun n =>
                ((r.addNode g name attributes).2.node n).name =
                  other) =
            r.localNode? f other := by
      intro f
      rw [hIndexed.localNode?_eq]
      apply List.find?_congr
      intro n hn
      have hn := hIndexed.hasNode (List.mem_reverse.mp hn)
      rw [hNode, if_neg hn.ne_next]
    refine (localNode?_addNode hg name attributes h other).trans ?_
    rw [hGraph]
    by_cases hEq : h = g
    · rw [if_pos hEq, List.reverse_append, List.reverse_singleton,
        List.singleton_append, List.find?_cons, hOld, hNode,
        if_pos rfl]
      by_cases hName : other = name
      · simp [hEq, hName]
      · simp [hEq, hName, Ne.symm hName]
    · rw [if_neg hEq, hOld]
      simp [hEq]
  · intro h n
    rw [view_graph_addNode g _ _ Graph.members fun _ _ _ => rfl,
      view_graph_addNode g _ _ Graph.memberSet fun _ _ _ => rfl]
    exact hIndexed.mem_memberSet h n

------------------------------------------------------------
-- New Members
------------------------------------------------------------

namespace IsIndexed

variable {g h : GraphId} {n m : NodeId}

theorem members_addMember
    (hIndexed : r.IsIndexed)
    (hg : r.HasGraph g)
    (n : NodeId)
    (h : GraphId) :
    ((r.addMember g n).graph h).members =
      if h = g ∧ n ∉ (r.graph g).members then
        (r.graph g).members ++ [n]
      else
        (r.graph h).members := by
  rw [DotLang.Registry.addMember, graph_modifyGraph hg]
  by_cases hEq : h = g
  · subst hEq
    rw [if_pos rfl, addMember_eq]
    by_cases hMem : n ∈ (r.graph h).members
    · simp [hIndexed.mem_memberSet, hMem]
    · simp [hIndexed.mem_memberSet, hMem]
  · simp [hEq]

/- A member is an old one, or the new one. -/
theorem mem_members_addMember
    (hIndexed : r.IsIndexed)
    (hg : r.HasGraph g) :
    m ∈ ((r.addMember g n).graph h).members ↔
      m ∈ (r.graph h).members ∨ h = g ∧ m = n := by
  rw [hIndexed.members_addMember hg]
  by_cases hEq : h = g
  · subst hEq
    by_cases hMem : n ∈ (r.graph h).members
    · rw [if_neg (fun hNew => hNew.2 hMem)]
      constructor
      · exact .inl
      · rintro (hOld | ⟨-, rfl⟩)
        · exact hOld
        · exact hMem
    · simp [hMem]
  · simp [hEq]

theorem nodup_members_addMember
    (hIndexed : r.IsIndexed)
    (hg : r.HasGraph g)
    (n : NodeId)
    (hNodup : ∀ h, (r.graph h).members.Nodup)
    (h : GraphId) :
    ((r.addMember g n).graph h).members.Nodup := by
  rw [hIndexed.members_addMember hg]
  by_cases hNew : h = g ∧ n ∉ (r.graph g).members
  · rw [if_pos hNew, ← List.concat_eq_append]
    exact (hNodup g).concat hNew.2
  · rw [if_neg hNew]
    exact hNodup h

theorem mem_addMember
    (hIndexed : r.IsIndexed)
    (hg : r.HasGraph g)
    (n : NodeId) :
    n ∈ ((r.addMember g n).graph g).members :=
  (hIndexed.mem_members_addMember hg).mpr (.inr ⟨rfl, rfl⟩)

theorem addMember_of_mem
    (hIndexed : r.IsIndexed)
    (hMem : n ∈ (r.graph g).members) :
    r.addMember g n = r := by
  have hSame :
      r.graphs.modify g.index (Graph.addMember n) = r.graphs := by
    apply modify_of_fixed
    intro graph hGraph
    have hEq : r.graph g = graph := by
      simp [Registry.graph, Array.getD_eq_getD_getElem?, hGraph]
    rw [← hEq, Graph.addMember, if_pos (hIndexed.isMember_iff.mpr hMem)]
  rw [DotLang.Registry.addMember, modifyGraph, hSame]

theorem addMember
    (hIndexed : r.IsIndexed)
    (hg : r.HasGraph g)
    (n : NodeId) :
    (r.addMember g n).IsIndexed where
  hasNode hn := by
    rw [view_graph_addMember g n Graph.nodes fun _ _ _ => rfl] at hn
    exact hIndexed.hasNode hn
  nodeIndex_eq h name := by
    rw [view_graph_addMember g n Graph.nodes fun _ _ _ => rfl,
      view_graph_addMember g n Graph.nodeIndex fun _ _ _ => rfl]
    exact hIndexed.nodeIndex_eq h name
  mem_memberSet h m := by
    rw [hIndexed.mem_members_addMember hg,
      ← hIndexed.mem_memberSet, DotLang.Registry.addMember,
      graph_modifyGraph hg]
    by_cases hEq : h = g
    · subst hEq
      rw [if_pos rfl, addMember_eq, Std.ExtTreeSet.mem_insert,
        Std.compare_eq_iff_eq]
      simp [or_comm, eq_comm]
    · simp [hEq]

theorem declareNode
    (hIndexed : r.IsIndexed)
    (hg : r.HasGraph g)
    (name : String) :
    (r.declareNode g name).IsIndexed := by
  have hSame := sameTree_addNode (r := r) g name
    (r.graph g).nodeDefaults
  exact (hIndexed.addNode hg name _).addMember
    ((hSame.hasGraph g).mpr hg) _

end IsIndexed

end Registry

end DotLang
