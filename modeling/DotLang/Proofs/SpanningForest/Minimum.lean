import DotLang.Proofs.SpanningForest.Selection
import Mathlib.Algebra.BigOperators.Group.List.Basic
import Mathlib.Algebra.Order.BigOperators.Group.List
import Mathlib.Algebra.Order.Field.Rat
import Mathlib.Data.List.Sort

/-
  This file proves that the edges selected for a spanning forest
  weigh least among all that connect the same nodes.

  For each bound, the selected edges within it are at least as
  many as those of any other choice that closes no cycle.  So
  the selected edges weigh less one by one.

  Key theorems include:
    * `sum_le_sum_of_countP_le`
    * `Selects.connects_iff`
    * `Selects.sum_le_of_isAcyclic`
    * `Selects.sum_le`
-/

------------------------------------------------------------
-- Sums
------------------------------------------------------------

namespace DotLang

/- The largest numbers are compared first. -/
theorem sum_le_sum_of_sorted
    {xs ys : List ℚ}
    (hXs : xs.Pairwise (· ≥ ·))
    (hYs : ys.Pairwise (· ≥ ·))
    (hLength : xs.length = ys.length)
    (hCount :
      ∀ t : ℚ,
        ys.countP (fun y => y ≤ t) ≤ xs.countP fun x => x ≤ t) :
    xs.sum ≤ ys.sum := by
  induction xs generalizing ys with
  | nil =>
      rw [List.length_nil, eq_comm, List.length_eq_zero_iff] at hLength
      rw [hLength]
  | cons x xs ih =>
      rcases ys with _ | ⟨y, ys⟩
      · cases hLength
      rcases List.pairwise_cons.mp hXs with ⟨hTopX, hXs'⟩
      rcases List.pairwise_cons.mp hYs with ⟨hTopY, hYs'⟩
      have hLength' : xs.length = ys.length := Nat.succ.inj hLength
      -- all numbers of the second list are within its largest one
      have hLe : x ≤ y := by
        have hAll :
            (y :: ys).countP (fun z => z ≤ y) = (y :: ys).length := by
          rw [List.countP_eq_length]
          intro z hz
          rcases List.mem_cons.mp hz with rfl | hz
          · simp
          · simpa using hTopY z hz
        have hMore := hCount y
        rw [hAll, ← hLength] at hMore
        have hEq := Nat.le_antisymm List.countP_le_length hMore
        simpa using List.countP_eq_length.mp hEq x List.mem_cons_self
      rw [List.sum_cons, List.sum_cons]
      refine add_le_add hLe (ih hXs' hYs' hLength' ?_)
      intro t
      have hMore := hCount t
      rw [List.countP_cons, List.countP_cons] at hMore
      by_cases hx : x ≤ t
      · have hAll : xs.countP (fun z => z ≤ t) = xs.length := by
          rw [List.countP_eq_length]
          intro z hz
          simpa using le_trans (hTopX z hz) hx
        rw [hAll, hLength']
        exact List.countP_le_length
      · have hy : ¬ y ≤ t := fun h => hx (le_trans hLe h)
        simpa [hx, hy] using hMore

/-
  If within each bound there are no fewer of the one numbers than
  of the others, and as many in all, then their sum is no more.
-/
theorem sum_le_sum_of_countP_le
    {xs ys : List ℚ}
    (hLength : xs.length = ys.length)
    (hCount :
      ∀ t : ℚ,
        ys.countP (fun y => y ≤ t) ≤ xs.countP fun x => x ≤ t) :
    xs.sum ≤ ys.sum := by
  have hPermX := List.perm_insertionSort (· ≥ ·) xs
  have hPermY := List.perm_insertionSort (· ≥ ·) ys
  rw [← hPermX.sum_eq, ← hPermY.sum_eq]
  apply sum_le_sum_of_sorted
  · exact List.pairwise_insertionSort _ xs
  · exact List.pairwise_insertionSort _ ys
  · rw [hPermX.length_eq, hPermY.length_eq, hLength]
  · intro t
    rw [hPermX.countP_eq, hPermY.countP_eq]
    exact hCount t

------------------------------------------------------------
-- Least Weight
------------------------------------------------------------

section Minimum

variable {ends : EdgeId → NodeId × NodeId} {N : List NodeId}
variable {weight : EdgeId → ℚ}
variable {edges : List WeighedEdge} {C S : List EdgeId}

/- The selected edges connect what all edges connect. -/
theorem Selects.connects_iff
    (h : Selects ends weight [] edges C)
    (a b : NodeId) :
    Connects ends C a b ↔
      Connects ends (edges.map WeighedEdge.edge) a b := by
  constructor
  · intro hC
    exact hC.mono h.sublist.subset
  · intro hAll
    apply hAll.of_ends
    intro e he
    rcases List.mem_map.mp he with ⟨x, hx, rfl⟩
    have hLight := h.light x hx
    rw [List.append_nil] at hLight
    exact hLight.mono List.filter_sublist.subset

/- Within each bound, no other choice has more edges. -/
theorem Selects.length_filter_le
    (h : Selects ends weight [] edges C)
    (hN : N.Nodup)
    (hEdges : ∀ x ∈ edges, EndsIn ends N x.edge)
    (hS : S.Nodup)
    (hSub : S ⊆ edges.map WeighedEdge.edge)
    (hAcyclic : IsAcyclic ends S)
    (t : ℚ) :
    (S.filter fun e => weight e ≤ t).length ≤
      (C.filter fun e => weight e ≤ t).length := by
  have hNodup := h.nodup
  have hForest := h.isAcyclic
  rw [List.append_nil] at hNodup hForest
  have hIn : ∀ e ∈ edges.map WeighedEdge.edge, EndsIn ends N e :=
    List.forall_mem_map.mpr hEdges
  apply (hAcyclic.mono List.filter_sublist.subset).length_le hN
    (hS.filter _) (hNodup.filter _)
    (hForest.mono List.filter_sublist.subset)
  · intro e he
    exact hIn e (hSub (List.mem_filter.mp he).1)
  · intro e he
    exact hIn e (h.sublist.subset (List.mem_filter.mp he).1)
  · intro e he
    rcases List.mem_filter.mp he with ⟨he, hWithin⟩
    rcases List.mem_map.mp (hSub he) with ⟨x, hx, rfl⟩
    have hLight := h.light x hx
    rw [List.append_nil] at hLight
    refine hLight.mono ?_
    intro d hd
    rw [List.mem_filter] at hd ⊢
    simp only [decide_eq_true_eq] at hd hWithin ⊢
    exact ⟨hd.1, le_trans hd.2 hWithin⟩

theorem Selects.sum_le_of_isAcyclic
    (h : Selects ends weight [] edges C)
    (hN : N.Nodup)
    (hEdges : ∀ x ∈ edges, EndsIn ends N x.edge)
    (hS : S.Nodup)
    (hSub : S ⊆ edges.map WeighedEdge.edge)
    (hAcyclic : IsAcyclic ends S)
    (hConnects :
      ∀ e ∈ edges.map WeighedEdge.edge,
        Connects ends S (ends e).1 (ends e).2) :
    (C.map weight).sum ≤ (S.map weight).sum := by
  have hNodup := h.nodup
  have hForest := h.isAcyclic
  rw [List.append_nil] at hNodup hForest
  have hIn : ∀ e ∈ edges.map WeighedEdge.edge, EndsIn ends N e :=
    List.forall_mem_map.mpr hEdges
  have hFewer : C.length ≤ S.length :=
    hForest.length_le hN hNodup hS hAcyclic
      (fun e he => hIn e (h.sublist.subset he))
      (fun e he => hIn e (hSub he))
      (fun e he => hConnects e (h.sublist.subset he))
  have hMore : S.length ≤ C.length :=
    hAcyclic.length_le hN hS hNodup hForest
      (fun e he => hIn e (hSub he))
      (fun e he => hIn e (h.sublist.subset he))
      (fun e he => (h.connects_iff _ _).mpr (.of_mem (hSub he)))
  apply sum_le_sum_of_countP_le
  · rw [List.length_map, List.length_map]
    exact Nat.le_antisymm hFewer hMore
  · intro t
    have hWithin := h.length_filter_le hN hEdges hS hSub hAcyclic t
    rw [List.countP_map, List.countP_map, List.countP_eq_length_filter,
      List.countP_eq_length_filter]
    exact hWithin

/-
  No choice of edges that connect the same nodes weighs less, if
  it closes no cycle or has no negative weight.
-/
theorem Selects.sum_le
    (h : Selects ends weight [] edges C)
    (hN : N.Nodup)
    (hEdges : ∀ x ∈ edges, EndsIn ends N x.edge)
    (hS : S.Nodup)
    (hSub : S ⊆ edges.map WeighedEdge.edge)
    (hConnects :
      ∀ e ∈ edges.map WeighedEdge.edge,
        Connects ends S (ends e).1 (ends e).2)
    (hFair : IsAcyclic ends S ∨ ∀ e ∈ S, 0 ≤ weight e) :
    (C.map weight).sum ≤ (S.map weight).sum := by
  rcases hFair with hAcyclic | hPositive
  · exact h.sum_le_of_isAcyclic hN hEdges hS hSub hAcyclic hConnects
  · rcases exists_isAcyclic ends S with
      ⟨A, hList, hNodup, hAcyclic, hSame⟩
    have hLe := h.sum_le_of_isAcyclic hN hEdges hNodup
      (List.Subset.trans hList.subset hSub) hAcyclic
      (fun e he => (hSame _ _).mpr (hConnects e he))
    refine le_trans hLe ((hList.map weight).sum_le_sum ?_)
    intro w hw
    rcases List.mem_map.mp hw with ⟨e, he, rfl⟩
    exact hPositive e he

end Minimum

end DotLang
