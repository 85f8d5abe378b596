import DotLang.Proofs.Route.Walk

/-
  This file proves that the search in the order in which nodes
  are reached finds a walk exactly if there is one.

  The nodes that were reached form a tree of predecessors.  Each
  of them waits in line or was served, and all arcs out of nodes
  that were served lead to nodes that were reached.

  Key definitions include:
    * `IsTree`
    * `IsWide`

  Key theorems include:
    * `shortestAlong_eq_nil_iff`
    * `isWalk_shortestAlong`
-/

------------------------------------------------------------
-- Trees of Predecessors
------------------------------------------------------------

namespace DotLang

variable {W : Type} {arcs : List (Arc W)} {source : NodeId}

/- Predecessors that lead back to the source along arcs. -/
structure IsTree
    (arcs : List (Arc W))
    (source : NodeId)
    (before : Predecessors) : Prop where
  nodup : (source :: before.nodes).Nodup
  targets : before.nodes ⊆ arcs.map Arc.target
  traced :
    ∀ n ∈ source :: before.nodes,
      ∃ route,
        IsTraced before source n route ∧
          IsWalk (Leads arcs) source n route

theorem isTree_nil
    (arcs : List (Arc W))
    (source : NodeId) :
    IsTree arcs source [] where
  nodup := List.nodup_singleton source
  targets := List.nil_subset _
  traced n hn := by
    rw [List.mem_singleton.mp hn]
    exact ⟨[source], .source, isWalk_singleton _ source⟩

namespace IsTree

variable {before : Predecessors}

/- A node is reached from one that was reached before. -/
theorem extend
    (h : IsTree arcs source before)
    {arc : Arc W}
    (hArc : arc ∈ arcs)
    (hSource : arc.source ∈ source :: before.nodes)
    (hNew : arc.target ∉ source :: before.nodes) :
    IsTree arcs source ((arc.target, arc.source) :: before) := by
  refine ⟨?_, List.cons_subset.mpr ⟨?_, h.targets⟩, ?_⟩
  · have hAll := List.nodup_cons.mpr ⟨hNew, h.nodup⟩
    exact (List.Perm.swap source arc.target _).nodup hAll
  · exact List.mem_map_of_mem hArc
  · intro n hn
    by_cases hTarget : n = arc.target
    · subst hTarget
      rcases h.traced _ hSource with ⟨route, hRoute, hWalk⟩
      refine ⟨route ++ [arc.target],
        .step (hRoute.reach hNew)
          (lookup_cons_self _ _ before)
          fun hMem => hNew (hRoute.subset hMem),
        hWalk.snoc (Arc.leads hArc)⟩
    · have hOld : n ∈ source :: before.nodes := by
        simp only [Predecessors.nodes, List.map_cons,
          List.mem_cons, hTarget, false_or] at hn ⊢
        exact hn
      rcases h.traced n hOld with ⟨route, hRoute, hWalk⟩
      exact ⟨route, hRoute.reach hNew, hWalk⟩

/- All targets of arcs out of reached nodes are reached. -/
theorem discover
    (h : IsTree arcs source before)
    {out : List (Arc W)}
    (hArcs : out ⊆ arcs)
    (hSource : ∀ arc ∈ out, arc.source ∈ source :: before.nodes) :
    let after := (discover source before out).reverse ++ before
    IsTree arcs source after ∧
      ∀ arc ∈ out,
        arc.target ∈ source :: Predecessors.nodes after := by
  induction out generalizing before with
  | nil => exact ⟨h, nofun⟩
  | cons arc rest ih =>
      rw [List.cons_subset] at hArcs
      have hSource' :
          ∀ a ∈ rest, a.source ∈ source :: before.nodes :=
        fun a ha => hSource a (List.mem_cons_of_mem arc ha)
      have hKnown :
          (arc.target = source ∨ (before.lookup arc.target).isSome) ↔
            arc.target ∈ source :: before.nodes := by
        rw [Predecessors.lookup_isSome_iff, List.mem_cons]
      simp only [DotLang.discover, hKnown]
      split
      case isTrue hOld =>
        rcases ih h hArcs.2 hSource' with ⟨hTree, hAll⟩
        refine ⟨hTree, fun a ha => ?_⟩
        rcases List.mem_cons.mp ha with rfl | ha
        · exact Predecessors.mem_nodes_append.mpr (.inr hOld)
        · exact hAll a ha
      case isFalse hNew =>
        have hHead := hSource arc List.mem_cons_self
        have hNext := h.extend hArcs.1 hHead hNew
        have hMore :
            ∀ a ∈ rest,
              a.source ∈ source ::
                Predecessors.nodes
                  ((arc.target, arc.source) :: before) := by
          intro a ha
          exact List.cons_subset_cons source
            (List.subset_cons_self _ _) (hSource' a ha)
        rcases ih hNext hArcs.2 hMore with ⟨hTree, hAll⟩
        rw [List.reverse_cons, List.append_assoc,
          List.singleton_append]
        refine ⟨hTree, fun a ha => ?_⟩
        rcases List.mem_cons.mp ha with rfl | ha
        · simp [Predecessors.nodes]
        · exact hAll a ha

end IsTree

------------------------------------------------------------
-- The Search
------------------------------------------------------------

/-
  The nodes that were reached were served or are pending, and
  the arcs out of those that were served have been followed.
-/
structure IsWide
    (arcs : List (Arc W))
    (source : NodeId)
    (before : Predecessors)
    (pending served : List NodeId) : Prop where
  isTree : IsTree arcs source before
  perm : (served ++ pending).Perm (source :: before.nodes)
  followed :
    ∀ arc ∈ arcs,
      arc.source ∈ served →
        arc.target ∈ source :: before.nodes

theorem isWide_start
    (arcs : List (Arc W))
    (source : NodeId) :
    IsWide arcs source [] [source] [] where
  isTree := isTree_nil arcs source
  perm := .refl _
  followed := nofun

namespace IsWide

variable {before : Predecessors} {pending served : List NodeId}
variable {n target : NodeId}

/- The next node is served. -/
theorem serve
    (h : IsWide arcs source before (n :: pending) served) :
    let found := discover source before (arcsFrom arcs n)
    IsWide arcs source (found.reverse ++ before)
      (pending ++ found.map Prod.fst) (n :: served) := by
  intro found
  have hMem : n ∈ source :: before.nodes :=
    h.perm.subset (List.mem_append_right _ List.mem_cons_self)
  have hFound := h.isTree.discover
    (fun _ hArc => (mem_arcsFrom.mp hArc).1)
    (fun arc hArc => by rwa [(mem_arcsFrom.mp hArc).2])
  have hNodes :
      Predecessors.nodes (found.reverse ++ before) =
        (found.map Prod.fst).reverse ++ before.nodes := by
    simp [Predecessors.nodes]
  refine ⟨hFound.1, ?_, ?_⟩
  · rw [hNodes, ← List.append_assoc]
    have hServed := (List.perm_middle.symm.trans h.perm).append_right
      (found.map Prod.fst)
    refine hServed.trans (.cons source ?_)
    exact List.perm_append_comm.trans
      ((List.reverse_perm _).symm.append_right _)
  · intro arc hArc hSource
    rcases List.mem_cons.mp hSource with hNext | hServed
    · exact hFound.2 arc (mem_arcsFrom.mpr ⟨hArc, hNext⟩)
    · exact Predecessors.mem_nodes_append.mpr
        (.inr (h.followed arc hArc hServed))

/- If no node is pending, all that can be reached are. -/
theorem mem_of_reaches
    (h : IsWide arcs source before [] served)
    (hReach : Relation.ReflTransGen (Leads arcs) source n) :
    n ∈ source :: before.nodes := by
  induction hReach with
  | refl => exact List.mem_cons_self
  | tail _ hStep ih =>
      rcases hStep with ⟨arc, hArc, rfl, rfl⟩
      have hServed := h.perm.symm.subset ih
      rw [List.append_nil] at hServed
      exact h.followed arc hArc hServed

/- Each node but the source is the target of some arc. -/
theorem length_le
    (h : IsWide arcs source before pending served) :
    served.length + pending.length ≤ arcs.length + 1 := by
  have hNodup := (List.nodup_cons.mp h.isTree.nodup).2
  have hFew := (hNodup.subperm h.isTree.targets).length_le
  have hAll := h.perm.length_eq
  rw [List.length_append, List.length_cons] at hAll
  rw [List.length_map] at hFew
  omega

theorem searchWidth_spec
    (h : IsWide arcs source before pending served)
    (hTarget : target ∉ source :: before.nodes)
    {bound : Nat}
    (hBound : bound + served.length = arcs.length + 1) :
    let route := searchWidth arcs source target bound before pending
    (route = [] →
        ¬ Relation.ReflTransGen (Leads arcs) source target) ∧
      (route ≠ [] → IsWalk (Leads arcs) source target route) := by
  induction bound generalizing before pending served with
  | zero =>
      have hLength := h.length_le
      have hPending : pending = [] := by
        rw [← List.length_eq_zero_iff]
        omega
      subst hPending
      rw [searchWidth]
      exact ⟨fun _ hReach => hTarget (h.mem_of_reaches hReach),
        fun hNe => absurd rfl hNe⟩
  | succ bound ih =>
      rcases pending with _ | ⟨n, pending⟩
      · rw [searchWidth]
        · exact ⟨fun _ hReach => hTarget (h.mem_of_reaches hReach),
            fun hNe => absurd rfl hNe⟩
        · nofun
      have hNext := h.serve
      simp only [searchWidth, Predecessors.lookup_isSome_iff]
      split
      case isTrue hFound =>
        have hMem :
            target ∈ source ::
              Predecessors.nodes
                ((discover source before
                  (arcsFrom arcs n)).reverse ++ before) := by
          exact Predecessors.mem_nodes_append.mpr (.inl hFound)
        rcases hNext.isTree.traced target hMem with
          ⟨route, hRoute, hWalk⟩
        rw [hRoute.routeTo_eq]
        exact ⟨fun hNil => absurd hNil hWalk.ne_nil, fun _ => hWalk⟩
      case isFalse hMissing =>
        apply ih hNext
        · rw [Predecessors.mem_nodes_append, not_or]
          exact ⟨hMissing, hTarget⟩
        · rw [List.length_cons]
          omega

end IsWide

------------------------------------------------------------
-- Routes
------------------------------------------------------------

theorem shortestAlong_spec
    (arcs : List (Arc W))
    (source target : NodeId) :
    (shortestAlong arcs source target = [] →
        ¬ Relation.ReflTransGen (Leads arcs) source target) ∧
      (shortestAlong arcs source target ≠ [] →
        IsWalk (Leads arcs) source target
          (shortestAlong arcs source target)) := by
  unfold shortestAlong
  split
  case isTrue hSame =>
    subst hSame
    exact ⟨nofun, fun _ => isWalk_singleton _ source⟩
  case isFalse hNe =>
    apply (isWide_start arcs source).searchWidth_spec
    · intro hMem
      exact hNe (List.mem_singleton.mp hMem).symm
    · rfl

theorem shortestAlong_eq_nil_iff
    (arcs : List (Arc W))
    (source target : NodeId) :
    shortestAlong arcs source target = [] ↔
      ¬ Relation.ReflTransGen (Leads arcs) source target := by
  refine ⟨(shortestAlong_spec arcs source target).1, ?_⟩
  intro hNone
  by_contra hNe
  have hWalk := (shortestAlong_spec arcs source target).2 hNe
  exact hNone (exists_isWalk_iff.mp ⟨_, hWalk⟩)

theorem isWalk_shortestAlong
    {target : NodeId}
    (hNe : shortestAlong arcs source target ≠ []) :
    IsWalk (Leads arcs) source target
      (shortestAlong arcs source target) :=
  (shortestAlong_spec arcs source target).2 hNe

end DotLang
