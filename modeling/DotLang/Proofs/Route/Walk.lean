import DotLang.Route
import Mathlib.Data.List.Chain
import Mathlib.Data.List.Nodup
import Mathlib.Data.List.Perm.Subperm
import Mathlib.Logic.Relation

/-
  This file defines walks from one node to another, and proves
  that steps back along predecessors give the walk by which a
  node was reached.

  Key definitions include:
    * `IsWalk`
    * `Leads`
    * `IsTraced`

  Key theorems include:
    * `exists_isWalk_iff`
    * `IsTraced.routeTo_eq`
-/

------------------------------------------------------------
-- Walks
------------------------------------------------------------

namespace DotLang

/-
  A list of nodes that starts and ends at given nodes, where
  each one leads to the next one.
-/
structure IsWalk
    (R : NodeId → NodeId → Prop)
    (source target : NodeId)
    (route : List NodeId) : Prop where
  head : route.head? = some source
  last : route.getLast? = some target
  isChain : route.IsChain R

section Walks

variable {R : NodeId → NodeId → Prop}
variable {source target b : NodeId} {route : List NodeId}

theorem isWalk_singleton
    (R : NodeId → NodeId → Prop)
    (source : NodeId) :
    IsWalk R source source [source] where
  head := rfl
  last := rfl
  isChain := .singleton source

theorem IsWalk.ne_nil
    (h : IsWalk R source target route) :
    route ≠ [] := by
  rintro rfl
  cases h.head

/- A walk goes one step further. -/
theorem IsWalk.snoc
    (h : IsWalk R source b route)
    (hStep : R b target) :
    IsWalk R source target (route ++ [target]) where
  head := by
    rw [List.head?_append_of_ne_nil _ h.ne_nil]
    exact h.head
  last := List.getLast?_concat
  isChain := by
    refine h.isChain.append (.singleton target) ?_
    intro x hx y hy
    rw [h.last, Option.mem_some_iff] at hx
    rw [List.head?_cons, Option.mem_some_iff] at hy
    rwa [← hx, ← hy]

/- A walk is at its source, or goes on from a shorter one. -/
theorem IsWalk.cases_last
    (h : IsWalk R source target route) :
    (route = [source] ∧ target = source) ∨
      ∃ shorter b,
        IsWalk R source b shorter ∧
          R b target ∧
          route = shorter ++ [target] := by
  rcases List.eq_nil_or_concat route with rfl | ⟨shorter, n, rfl⟩
  · exact absurd rfl h.ne_nil
  rw [List.concat_eq_append] at h ⊢
  have hn : n = target := by
    simpa using h.last
  subst hn
  rcases hLast : shorter.getLast? with _ | b
  · rw [List.getLast?_eq_none_iff] at hLast
    subst hLast
    have hn : n = source := by simpa using h.head
    exact .inl ⟨by rw [hn]; rfl, hn⟩
  · have hNe : shorter ≠ [] := by
      rintro rfl
      cases hLast
    rcases List.isChain_append.mp h.isChain with ⟨hChain, -, hJoin⟩
    have hHead := h.head
    rw [List.head?_append_of_ne_nil _ hNe] at hHead
    exact .inr ⟨shorter, b, ⟨hHead, hLast, hChain⟩,
      hJoin b hLast n rfl, rfl⟩

/- Walks are taken step by step. -/
theorem IsWalk.induct
    {motive : NodeId → List NodeId → Prop}
    (hStart : motive source [source])
    (hSnoc :
      ∀ {b n : NodeId} {route : List NodeId},
        IsWalk R source b route →
          R b n →
          motive b route →
            motive n (route ++ [n]))
    (h : IsWalk R source target route) :
    motive target route := by
  induction hLength : route.length generalizing route target with
  | zero =>
      exact absurd (List.length_eq_zero_iff.mp hLength) h.ne_nil
  | succ k ih =>
      rcases h.cases_last with
        ⟨rfl, rfl⟩ | ⟨shorter, b, hWalk, hStep, rfl⟩
      · exact hStart
      · have hShorter : shorter.length = k := by
          simpa using hLength
        exact hSnoc hWalk hStep (ih hWalk hShorter)

theorem exists_isWalk_iff :
    (∃ route, IsWalk R source target route) ↔
      Relation.ReflTransGen R source target := by
  constructor
  · rintro ⟨route, hWalk⟩
    refine hWalk.induct
      (motive := fun n _ => Relation.ReflTransGen R source n)
      .refl ?_
    intro _ _ _ _ hStep ih
    exact ih.tail hStep
  · intro h
    induction h with
    | refl => exact ⟨[source], isWalk_singleton R source⟩
    | tail _ hStep ih =>
        rcases ih with ⟨route, hWalk⟩
        exact ⟨route ++ [_], hWalk.snoc hStep⟩

end Walks

------------------------------------------------------------
-- Arcs as Steps
------------------------------------------------------------

variable {W : Type}

/- There is an arc from one node to another. -/
def Leads (arcs : List (Arc W)) (a b : NodeId) : Prop :=
  ∃ arc ∈ arcs, arc.source = a ∧ arc.target = b

theorem Arc.leads
    {arcs : List (Arc W)}
    {arc : Arc W}
    (hArc : arc ∈ arcs) :
    Leads arcs arc.source arc.target :=
  ⟨arc, hArc, rfl, rfl⟩

theorem mem_arcsFrom
    {arcs : List (Arc W)}
    {arc : Arc W}
    {n : NodeId} :
    arc ∈ arcsFrom arcs n ↔ arc ∈ arcs ∧ arc.source = n := by
  rw [arcsFrom, List.mem_filter, decide_eq_true_iff]

theorem mem_arcsFrom_filter
    {arcs : List (Arc W)}
    {arc : Arc W}
    {a b : NodeId} :
    (arc ∈ (arcsFrom arcs a).filter fun way => way.target = b) ↔
      arc ∈ arcs ∧ arc.source = a ∧ arc.target = b := by
  rw [List.mem_filter, mem_arcsFrom, decide_eq_true_iff, and_assoc]

------------------------------------------------------------
-- Predecessors
------------------------------------------------------------

section Lookup

variable {β : Type} {n m : NodeId} {entries : List (NodeId × β)}

theorem lookup_cons_self
    (n : NodeId)
    (x : β)
    (entries : List (NodeId × β)) :
    List.lookup n ((n, x) :: entries) = some x := by
  rw [List.lookup_cons, beq_self_eq_true]

theorem lookup_cons_of_ne
    (hNe : n ≠ m)
    (x : β) :
    List.lookup n ((m, x) :: entries) = entries.lookup n := by
  rw [List.lookup_cons, beq_false_of_ne hNe]

theorem lookup_cons_cases
    {x y : β}
    (h : List.lookup n ((m, x) :: entries) = some y) :
    (n = m ∧ y = x) ∨ (n ≠ m ∧ entries.lookup n = some y) := by
  by_cases hEq : n = m
  · subst hEq
    rw [lookup_cons_self] at h
    exact .inl ⟨rfl, (Option.some.inj h).symm⟩
  · rw [lookup_cons_of_ne hEq] at h
    exact .inr ⟨hEq, h⟩

end Lookup

namespace Predecessors

variable {before : Predecessors} {source n p : NodeId}

/- The nodes that have a predecessor. -/
def nodes (before : Predecessors) : List NodeId :=
  before.map Prod.fst

/- Predecessors that were found are put before the others. -/
theorem mem_nodes_append
    {found : Predecessors} :
    n ∈ source :: nodes (found.reverse ++ before) ↔
      n ∈ found.nodes ∨ n ∈ source :: before.nodes := by
  simp only [nodes, List.map_append, List.map_reverse,
    List.mem_cons, List.mem_append, List.mem_reverse]
  exact or_left_comm

theorem lookup_isSome_iff :
    (before.lookup n).isSome ↔ n ∈ before.nodes := by
  rw [List.lookup_isSome_iff, nodes, List.mem_map]
  constructor
  · rintro ⟨entry, hEntry, hEq⟩
    exact ⟨entry, hEntry, (beq_iff_eq.mp hEq).symm⟩
  · rintro ⟨entry, hEntry, rfl⟩
    exact ⟨entry, hEntry, beq_self_eq_true _⟩

theorem mem_nodes_of_lookup
    (h : before.lookup n = some p) :
    n ∈ before.nodes := by
  rw [← lookup_isSome_iff, h]
  rfl

end Predecessors

------------------------------------------------------------
-- Steps Back
------------------------------------------------------------

/-
  The route along which predecessors lead back from a node to a
  source, without a node that is there twice.
-/
inductive IsTraced
    (before : Predecessors)
    (source : NodeId) :
    NodeId → List NodeId → Prop where
| source : IsTraced before source source [source]
| step
    {n p : NodeId}
    {route : List NodeId}
    (hRoute : IsTraced before source p route)
    (hBefore : before.lookup n = some p)
    (hNew : n ∉ route) :
    IsTraced before source n (route ++ [n])

namespace IsTraced

variable {before before' : Predecessors}
variable {source n : NodeId} {route : List NodeId}

theorem source_mem
    (h : IsTraced before source n route) :
    source ∈ route := by
  induction h with
  | source => exact List.mem_singleton_self source
  | step _ _ _ ih => exact List.mem_append_left _ ih

theorem nodup
    (h : IsTraced before source n route) :
    route.Nodup := by
  induction h with
  | source => exact List.nodup_singleton source
  | step _ _ hNew ih =>
      rw [← List.concat_eq_append, List.nodup_concat]
      exact ⟨hNew, ih⟩

/- All nodes of the route but the source have predecessors. -/
theorem subset
    (h : IsTraced before source n route) :
    route ⊆ source :: before.nodes := by
  induction h with
  | source =>
      intro m hm
      rw [List.mem_singleton.mp hm]
      exact List.mem_cons_self
  | step _ hBefore _ ih =>
      rw [List.append_subset]
      refine ⟨ih, ?_⟩
      intro m hm
      rw [List.mem_singleton.mp hm]
      exact List.mem_cons_of_mem _
        (Predecessors.mem_nodes_of_lookup hBefore)

theorem length_le
    (h : IsTraced before source n route) :
    route.length ≤ before.length + 1 := by
  have hLength := (h.nodup.subperm h.subset).length_le
  rwa [List.length_cons, Predecessors.nodes, List.length_map]
    at hLength

/- What the route does not see may change. -/
theorem congr
    (h : IsTraced before source n route)
    (hSame :
      ∀ m ∈ route,
        m ≠ source → before'.lookup m = before.lookup m) :
    IsTraced before' source n route := by
  induction h with
  | source => exact .source
  | @step n p route hRoute hBefore hNew ih =>
      have hNe : n ≠ source := by
        rintro rfl
        exact hNew hRoute.source_mem
      refine .step (ih fun m hm => ?_) ?_ hNew
      · exact hSame m (List.mem_append_left _ hm)
      · rw [hSame n (List.mem_append_right _ (by simp)) hNe, hBefore]

/- A route stays as it is when another node is reached. -/
theorem reach
    (h : IsTraced before source n route)
    {m p : NodeId}
    (hNew : m ∉ source :: before.nodes) :
    IsTraced ((m, p) :: before) source n route := by
  refine h.congr fun k hk _ => lookup_cons_of_ne ?_ _
  rintro rfl
  exact hNew (h.subset hk)

theorem retrace_eq
    (h : IsTraced before source n route)
    {bound : Nat}
    (hBound : route.length ≤ bound)
    (behind : List NodeId) :
    retrace before source bound n behind = route ++ behind := by
  induction h generalizing bound behind with
  | source =>
      rcases bound with _ | bound
      · cases hBound
      · rw [retrace, if_pos rfl]
        rfl
  | @step n p route hRoute hBefore hNew ih =>
      rw [List.length_append, List.length_singleton] at hBound
      rcases bound with _ | bound
      · cases hBound
      have hNe : n ≠ source := by
        rintro rfl
        exact hNew hRoute.source_mem
      have hRest := ih (Nat.le_of_succ_le_succ hBound) (n :: behind)
      rw [retrace, if_neg hNe, hBefore, List.append_assoc]
      exact hRest

theorem routeTo_eq
    (h : IsTraced before source n route) :
    routeTo before source n = route := by
  rw [routeTo, h.retrace_eq h.length_le, List.append_nil]

end IsTraced

end DotLang
