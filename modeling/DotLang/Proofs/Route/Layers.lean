import DotLang.Proofs.Route.Correctness

/-
  This file proves that the search in the order in which nodes
  are reached finds a walk with the fewest nodes.

  Nodes are served layer by layer: those that wait are one step
  apart at most, and a walk to a node that was not reached yet
  is longer than the route to the first of them.

  Key definitions include:
    * `IsShortest`
    * `hops`
    * `IsLayered`

  Key theorems include:
    * `IsLayered.serve`
    * `isShortest_shortestAlong`
    * `Registry.isShortest_shortestRoute`
-/

------------------------------------------------------------
-- Shortest Routes
------------------------------------------------------------

namespace DotLang

/-
  A route between two nodes that is empty if there is no walk,
  and else is a walk with at most as many nodes as any other.
-/
structure IsShortest
    (R : NodeId → NodeId → Prop)
    (source target : NodeId)
    (route : List NodeId) : Prop where
  self : source = target → route = [source]
  eq_nil_iff :
    route = [] ↔ ¬ Relation.ReflTransGen R source target
  isWalk : route ≠ [] → IsWalk R source target route
  length_le :
    ∀ other,
      IsWalk R source target other → route.length ≤ other.length

variable {W : Type} {arcs : List (Arc W)} {source : NodeId}

------------------------------------------------------------
-- Lengths of Routes
------------------------------------------------------------

/- The number of nodes on the route to a node. -/
def hops (before : Predecessors) (source n : NodeId) : Nat :=
  (routeTo before source n).length

namespace IsTree

variable {before : Predecessors} {m n p : NodeId}

theorem hops_reach_of_mem
    (h : IsTree arcs source before)
    (hNew : m ∉ source :: before.nodes)
    (hn : n ∈ source :: before.nodes) :
    hops ((m, p) :: before) source n = hops before source n := by
  rcases h.traced n hn with ⟨route, hRoute, -⟩
  rw [hops, hops, (hRoute.reach hNew).routeTo_eq, hRoute.routeTo_eq]

theorem hops_reach_self
    (h : IsTree arcs source before)
    (hNew : m ∉ source :: before.nodes)
    (hp : p ∈ source :: before.nodes) :
    hops ((m, p) :: before) source m = hops before source p + 1 := by
  rcases h.traced p hp with ⟨route, hRoute, -⟩
  have hStep :
      IsTraced ((m, p) :: before) source m (route ++ [m]) :=
    .step (hRoute.reach hNew) (lookup_cons_self _ _ before)
      fun hMem => hNew (hRoute.subset hMem)
  rw [hops, hops, hStep.routeTo_eq, hRoute.routeTo_eq,
    List.length_append, List.length_singleton]

/- The nodes that are found are one step behind a node. -/
theorem hops_discover
    (h : IsTree arcs source before)
    (hn : n ∈ source :: before.nodes)
    {out : List (Arc W)}
    (hOut : ∀ arc ∈ out, arc ∈ arcs ∧ arc.source = n) :
    let found := DotLang.discover source before out
    (∀ m ∈ source :: before.nodes,
        hops (found.reverse ++ before) source m =
          hops before source m) ∧
      ∀ m ∈ Predecessors.nodes found,
        hops (found.reverse ++ before) source m =
          hops before source n + 1 := by
  induction out generalizing before with
  | nil => exact ⟨fun _ _ => rfl, nofun⟩
  | cons arc rest ih =>
      rcases List.forall_mem_cons.mp hOut with
        ⟨⟨hArc, hSource⟩, hRest⟩
      simp only [DotLang.discover]
      split
      case isTrue hOld => exact ih h hn hRest
      case isFalse hOld =>
        have hNew : arc.target ∉ source :: before.nodes := by
          rwa [List.mem_cons, ← Predecessors.lookup_isSome_iff]
        have hNext := h.extend hArc (hSource ▸ hn) hNew
        have hGrow :
            source :: before.nodes ⊆
              source ::
                Predecessors.nodes
                  ((arc.target, arc.source) :: before) :=
          List.cons_subset_cons source (List.subset_cons_self _ _)
        rcases ih hNext (hGrow hn) hRest with ⟨hOthers, hFound⟩
        rw [List.reverse_cons, List.append_assoc,
          List.singleton_append]
        constructor
        · intro m hm
          rw [hOthers m (hGrow hm), h.hops_reach_of_mem hNew hm]
        · intro m hm
          rcases List.mem_cons.mp hm with rfl | hm
          · rw [hOthers _ (by simp [Predecessors.nodes]),
              h.hops_reach_self hNew (hSource ▸ hn), hSource]
          · rw [hFound m hm, h.hops_reach_of_mem hNew hn]

end IsTree

------------------------------------------------------------
-- Layers
------------------------------------------------------------

/-
  The routes to the nodes that were reached are as short as any
  walk, and the nodes that wait are in order of their routes,
  the last of which is one step longer than the first at most.
-/
structure IsLayered
    (arcs : List (Arc W))
    (source : NodeId)
    (before : Predecessors)
    (pending served : List NodeId) : Prop extends
    IsWide arcs source before pending served where
  least :
    ∀ n ∈ source :: before.nodes,
      ∀ walk,
        IsWalk (Leads arcs) source n walk →
          hops before source n ≤ walk.length
  ordered :
    pending.Pairwise fun a b =>
      hops before source a ≤ hops before source b ∧
        hops before source b ≤ hops before source a + 1

theorem isLayered_start
    (arcs : List (Arc W))
    (source : NodeId) :
    IsLayered arcs source [] [source] [] where
  toIsWide := isWide_start arcs source
  least n hn walk hWalk := by
    rw [List.mem_singleton.mp hn, hops, IsTraced.source.routeTo_eq]
    exact List.length_pos_of_ne_nil hWalk.ne_nil
  ordered := List.pairwise_singleton _ source

namespace IsLayered

variable {before : Predecessors} {pending served : List NodeId}
variable {m n target : NodeId} {walk : List NodeId}

/-
  A walk stays among the nodes that were served, or it is not
  shorter than the route to the first node that waits.
-/
theorem served_or_hops_le
    (h : IsLayered arcs source before (n :: pending) served)
    (hWalk : IsWalk (Leads arcs) source m walk) :
    m ∈ served ∨ hops before source n ≤ walk.length := by
  have hReached :
      ∀ {m walk},
        m ∈ source :: before.nodes →
          IsWalk (Leads arcs) source m walk →
          m ∈ served ∨ hops before source n ≤ walk.length := by
    intro m walk hm hWalk
    have hLeast := h.least m hm walk hWalk
    rcases List.mem_append.mp (h.perm.symm.subset hm) with hm | hm
    · exact .inl hm
    · rcases List.mem_cons.mp hm with rfl | hm
      · exact .inr hLeast
      · have hFirst := (List.pairwise_cons.mp h.ordered).1 m hm
        exact .inr (hFirst.1.trans hLeast)
  refine hWalk.induct
    (motive := fun m walk =>
      m ∈ served ∨ hops before source n ≤ walk.length)
    (hReached List.mem_cons_self (isWalk_singleton _ source)) ?_
  intro b m walk hWalk hStep ih
  rcases ih with hServed | hLe
  · rcases hStep with ⟨arc, hArc, rfl, rfl⟩
    exact hReached (h.followed arc hArc hServed)
      (hWalk.snoc (Arc.leads hArc))
  · rw [List.length_append]
    exact .inr (hLe.trans (Nat.le_add_right _ _))

/- A walk to a node that was not reached is longer. -/
theorem hops_lt
    (h : IsLayered arcs source before (n :: pending) served)
    (hWalk : IsWalk (Leads arcs) source m walk)
    (hNew : m ∉ source :: before.nodes) :
    hops before source n < walk.length := by
  rcases hWalk.cases_last with
    ⟨-, rfl⟩ | ⟨shorter, b, hShorter, hStep, rfl⟩
  · exact absurd List.mem_cons_self hNew
  · rcases h.served_or_hops_le hShorter with hServed | hLe
    · rcases hStep with ⟨arc, hArc, rfl, rfl⟩
      exact absurd (h.followed arc hArc hServed) hNew
    · rw [List.length_append, List.length_singleton]
      exact Nat.lt_succ_of_le hLe

/- The next node is served. -/
theorem serve
    (h : IsLayered arcs source before (n :: pending) served) :
    let found := discover source before (arcsFrom arcs n)
    IsLayered arcs source (found.reverse ++ before)
      (pending ++ found.map Prod.fst) (n :: served) := by
  intro found
  have hWide := h.toIsWide.serve
  have hMem :
      ∀ m ∈ n :: pending, m ∈ source :: before.nodes := fun m hm =>
    h.perm.subset (List.mem_append_right _ hm)
  have hHops := h.isTree.hops_discover (hMem n List.mem_cons_self)
    fun _ hArc => mem_arcsFrom.mp hArc
  have hNew :
      ∀ m ∈ Predecessors.nodes found, m ∉ source :: before.nodes := by
    intro m hm hOld
    have hNodup := hWide.isTree.nodup
    rw [Predecessors.nodes, List.map_append, List.map_reverse,
      List.nodup_cons, List.nodup_append] at hNodup
    rcases List.mem_cons.mp hOld with rfl | hOld
    · exact hNodup.1
        (List.mem_append_left _ (List.mem_reverse.mpr hm))
    · exact hNodup.2.2.2 m (List.mem_reverse.mpr hm) m hOld rfl
  refine { hWide with least := ?_, ordered := ?_ }
  · intro m hm walk hWalk
    rcases Predecessors.mem_nodes_append.mp hm with hm | hm
    · rw [hHops.2 m hm]
      exact h.hops_lt hWalk (hNew m hm)
    · rw [hHops.1 m hm]
      exact h.least m hm walk hWalk
  · rcases List.pairwise_cons.mp h.ordered with ⟨hFirst, hRest⟩
    have hOld :
        ∀ m ∈ pending,
          hops (found.reverse ++ before) source m =
            hops before source m :=
      fun m hm => hHops.1 m (hMem m (List.mem_cons_of_mem n hm))
    refine List.pairwise_append.mpr ⟨?_, ?_, ?_⟩
    · refine hRest.imp_of_mem fun ha hb hab => ?_
      rwa [hOld _ ha, hOld _ hb]
    · refine List.pairwise_of_forall_mem_list fun a ha b hb => ?_
      rw [hHops.2 a ha, hHops.2 b hb]
      omega
    · intro a ha b hb
      rw [hOld a ha, hHops.2 b hb]
      have hNear := hFirst a ha
      omega

theorem length_searchWidth_le
    (h : IsLayered arcs source before pending served)
    (hTarget : target ∉ source :: before.nodes)
    (hWalk : IsWalk (Leads arcs) source target walk)
    (bound : Nat) :
    (searchWidth arcs source target bound before pending).length ≤
      walk.length := by
  induction bound generalizing before pending served with
  | zero => exact Nat.zero_le _
  | succ bound ih =>
      rcases pending with _ | ⟨n, pending⟩
      · exact Nat.zero_le _
      have hNext := h.serve
      simp only [searchWidth, Predecessors.lookup_isSome_iff]
      split
      case isTrue hFound =>
        exact hNext.least target
          (Predecessors.mem_nodes_append.mpr (.inl hFound)) walk hWalk
      case isFalse hMissing =>
        apply ih hNext
        rw [Predecessors.mem_nodes_append, not_or]
        exact ⟨hMissing, hTarget⟩

end IsLayered

------------------------------------------------------------
-- Routes with the Fewest Edges
------------------------------------------------------------

theorem isShortest_shortestAlong
    (arcs : List (Arc W))
    (source target : NodeId) :
    IsShortest (Leads arcs) source target
      (shortestAlong arcs source target) where
  self hSame := by
    rw [shortestAlong, if_pos hSame]
  eq_nil_iff := shortestAlong_eq_nil_iff arcs source target
  isWalk := isWalk_shortestAlong
  length_le other hOther := by
    unfold shortestAlong
    split
    case isTrue hSame =>
      exact List.length_pos_of_ne_nil hOther.ne_nil
    case isFalse hNe =>
      refine (isLayered_start arcs source).length_searchWidth_le ?_
        hOther _
      intro hMem
      exact hNe (List.mem_singleton.mp hMem).symm

/-
  The route with the fewest edges between two nodes of a graph is
  one: among the edges of the graph and of the graphs inside it,
  no other walk has fewer.
-/
theorem Registry.isShortest_shortestRoute
    {F : Factory}
    (r : Registry F)
    (g : GraphId)
    (source target : NodeId) :
    IsShortest (r.Joins g) source target
      (r.shortestRoute g source target) := by
  have h := isShortest_shortestAlong (r.arcs g) source target
  rwa [arcs, leads_arcsBy] at h

end DotLang
