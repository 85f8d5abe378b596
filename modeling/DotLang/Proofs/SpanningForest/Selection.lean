import DotLang.Proofs.Partition
import DotLang.Proofs.SpanningForest.Multigraph
import DotLang.Proofs.SpanningForest.Places
import Mathlib.Data.Rat.Defs
import Mathlib.Algebra.Order.Ring.Unbundled.Rat

/-
  This file proves what edges are selected for a spanning forest.

  The selection closes no cycle, and each edge that is looked at
  ends in nodes that the selected edges of no more weight
  connect.  Edges that are not looked at any more come when all
  nodes are connected already.

  Key definitions include:
    * `Partition.Represents`
    * `Selects`

  Key theorems include:
    * `Partition.Represents.union`
    * `selects_selectEdges`
-/

------------------------------------------------------------
-- Partitions of Nodes
------------------------------------------------------------

namespace DotLang

section Selecting

variable {ends : EdgeId → NodeId × NodeId} {N : PlacedNodes}
variable {S : List EdgeId} {p : Partition}

/- The places of the ends of an edge. -/
def placesOf
    (ends : EdgeId → NodeId × NodeId)
    (N : PlacedNodes)
    (e : EdgeId) : Nat × Nat :=
  (N.placeOf (ends e).1, N.placeOf (ends e).2)

/- The ends of an edge are among some nodes. -/
def EndsIn
    (ends : EdgeId → NodeId × NodeId)
    (N : List NodeId)
    (e : EdgeId) : Prop :=
  (ends e).1 ∈ N ∧ (ends e).2 ∈ N

/- The sets of a partition are the nodes that edges connect. -/
structure Partition.Represents
    (p : Partition)
    (ends : EdgeId → NodeId × NodeId)
    (N : PlacedNodes)
    (S : List EdgeId) : Prop where
  isPlaced : N.IsPlaced
  isRanked : p.IsRanked
  size : p.size = N.nodes.length
  root_eq_iff :
    ∀ {a b : NodeId},
      a ∈ N.nodes →
        b ∈ N.nodes →
        (p.root (N.placeOf a) = p.root (N.placeOf b) ↔
          Connects ends S a b)

namespace Partition

theorem represents_singletons
    (ends : EdgeId → NodeId × NodeId)
    (hN : N.IsPlaced) :
    (singletons N.nodes.length).Represents ends N [] where
  isPlaced := hN
  isRanked := isRanked_singletons N.nodes.length
  size := by simp [singletons, size]
  root_eq_iff {a b} ha _ := by
    rw [root_singletons, root_singletons, hN.placeOf_inj ha]
    constructor
    · rintro rfl
      exact .refl
    · exact Connects.eq_of_nil

theorem Represents.placeOf_lt
    (h : p.Represents ends N S)
    {a : NodeId}
    (ha : a ∈ N.nodes) :
    N.placeOf a < p.size := by
  rw [h.size]
  exact h.isPlaced.placeOf_lt ha

/- An edge joins two sets unless its ends are connected. -/
theorem Represents.union_fst
    (h : p.Represents ends N S)
    {e : EdgeId}
    (he : EndsIn ends N.nodes e) :
    (p.union (placesOf ends N e).1 (placesOf ends N e).2).1 = true ↔
      ¬ Connects ends S (ends e).1 (ends e).2 := by
  rw [Partition.union_fst h.isRanked, ← h.root_eq_iff he.1 he.2]
  rfl

theorem Represents.union
    (h : p.Represents ends N S)
    {e : EdgeId}
    (he : EndsIn ends N.nodes e) :
    (p.union (placesOf ends N e).1
        (placesOf ends N e).2).2.Represents ends N (e :: S) := by
  have hA := h.placeOf_lt he.1
  have hB := h.placeOf_lt he.2
  rcases union_isRanked h.isRanked hA hB with ⟨hRanked, hSize⟩
  refine ⟨h.isPlaced, hRanked, hSize.trans h.size, ?_⟩
  intro a b ha hb
  refine (root_union_eq_iff h.isRanked hA hB _ _).trans ?_
  rw [connects_cons_iff, h.root_eq_iff ha hb,
    h.root_eq_iff ha he.1, h.root_eq_iff hb he.2,
    h.root_eq_iff ha he.2, h.root_eq_iff hb he.1]

/- An edge that joins nothing makes no difference. -/
theorem Represents.of_connects
    {e : EdgeId}
    (h : p.Represents ends N (e :: S))
    (hEnds : Connects ends S (ends e).1 (ends e).2) :
    p.Represents ends N S where
  isPlaced := h.isPlaced
  isRanked := h.isRanked
  size := h.size
  root_eq_iff {a b} ha hb := by
    rw [h.root_eq_iff ha hb]
    constructor
    · intro hJoined
      apply hJoined.of_ends
      intro d hd
      rcases List.mem_cons.mp hd with rfl | hd
      · exact hEnds
      · exact .of_mem hd
    · intro hOld
      exact hOld.mono (List.subset_cons_self e S)

end Partition

------------------------------------------------------------
-- Selected Edges
------------------------------------------------------------

/-
  Edges that were selected after others, and are to close no
  cycle with them.  An edge is light if it weighs no more than
  another one.
-/
structure Selects
    (ends : EdgeId → NodeId × NodeId)
    (weight : EdgeId → ℚ)
    (S : List EdgeId)
    (edges : List WeighedEdge)
    (C : List EdgeId) : Prop where
  sublist : C.Sublist (edges.map WeighedEdge.edge)
  nodup : (C ++ S).Nodup
  isAcyclic : IsAcyclic ends (C ++ S)
  light :
    ∀ x ∈ edges,
      Connects ends
        (C.filter (fun e => weight e ≤ weight x.edge) ++ S)
        (ends x.edge).1 (ends x.edge).2

/- As many edges as nodes but one connect all of them. -/
theorem connects_of_length_le
    (hN : N.IsPlaced)
    (hS : S.Nodup)
    (hAcyclic : IsAcyclic ends S)
    (hEnds : ∀ e ∈ S, EndsIn ends N.nodes e)
    (hLength : N.nodes.length ≤ S.length + 1)
    {a b : NodeId}
    (ha : a ∈ N.nodes)
    (hb : b ∈ N.nodes) :
    Connects ends S a b := by
  rcases exists_isTransversal hN.nodup hS hAcyclic hEnds with
    ⟨reps, hReps, hCount⟩
  rcases hReps.covers ha with ⟨u, hu, hToA⟩
  rcases hReps.covers hb with ⟨v, hv, hToB⟩
  have hOne : reps.length ≤ 1 := by omega
  have hSame : u = v := by
    rcases reps with _ | ⟨x, _ | ⟨y, rest⟩⟩
    · cases hu
    · rw [List.mem_singleton.mp hu, List.mem_singleton.mp hv]
    · simp only [List.length_cons] at hOne
      omega
  rw [hSame] at hToA
  exact hToA.trans hToB.symm

theorem selects_nil
    {weight : EdgeId → ℚ}
    {edges : List WeighedEdge}
    (hS : S.Nodup)
    (hAcyclic : IsAcyclic ends S)
    (hAll :
      ∀ x ∈ edges,
        Connects ends S (ends x.edge).1 (ends x.edge).2) :
    Selects ends weight S edges [] where
  sublist := List.nil_sublist _
  nodup := hS
  isAcyclic := hAcyclic
  light := hAll

/- An edge is selected before those that weigh no less. -/
theorem Selects.cons
    {weight : EdgeId → ℚ}
    {e : WeighedEdge}
    {edges : List WeighedEdge}
    {C : List EdgeId}
    (h : Selects ends weight (e.edge :: S) edges C)
    (hLight : ∀ x ∈ edges, weight e.edge ≤ weight x.edge) :
    Selects ends weight S (e :: edges) (e.edge :: C) where
  sublist := h.sublist.cons_cons _
  nodup := (List.perm_middle.nodup_iff).mp h.nodup
  isAcyclic := h.isAcyclic.mono List.perm_middle.symm.subset
  light x hx := by
    rcases List.mem_cons.mp hx with rfl | hx
    · apply Connects.of_mem
      simp
    · refine (h.light x hx).mono ?_
      rw [List.filter_cons_of_pos (by simpa using hLight x hx)]
      exact List.perm_middle.subset

theorem Selects.skip
    {weight : EdgeId → ℚ}
    {e : WeighedEdge}
    {edges : List WeighedEdge}
    {C : List EdgeId}
    (h : Selects ends weight S edges C)
    (hEnds : Connects ends S (ends e.edge).1 (ends e.edge).2) :
    Selects ends weight S (e :: edges) C where
  sublist := h.sublist.cons _
  nodup := h.nodup
  isAcyclic := h.isAcyclic
  light x hx := by
    rcases List.mem_cons.mp hx with rfl | hx
    · exact hEnds.mono (List.subset_append_right _ S)
    · exact h.light x hx

/- The run goes on with the edges that were selected so far. -/
theorem selects_selectEdges
    {weight : EdgeId → ℚ}
    {edges : List WeighedEdge}
    (hSorted :
      edges.Pairwise fun x y => weight x.edge ≤ weight y.edge)
    (hEdges : ∀ x ∈ edges, EndsIn ends N.nodes x.edge)
    {missing : Nat}
    (hp : p.Represents ends N S)
    (hS : S.Nodup)
    (hAcyclic : IsAcyclic ends S)
    (hEnds : ∀ e ∈ S, EndsIn ends N.nodes e)
    (hMissing : N.nodes.length ≤ S.length + missing + 1) :
    Selects ends weight S edges
      (selectEdges (placesOf ends N) missing p edges).1 := by
  induction edges generalizing missing p S with
  | nil =>
      rw [selectEdges]
      exact selects_nil hS hAcyclic nofun
  | cons e edges ih =>
      rcases missing with _ | missing
      · rw [selectEdges]
        · apply selects_nil hS hAcyclic
          intro x hx
          exact connects_of_length_le hp.isPlaced hS hAcyclic hEnds
            hMissing (hEdges x hx).1 (hEdges x hx).2
        · nofun
      rcases List.pairwise_cons.mp hSorted with ⟨hLight, hSorted'⟩
      have he := hEdges e List.mem_cons_self
      have hEdges' :
          ∀ x ∈ edges, EndsIn ends N.nodes x.edge :=
        fun x hx => hEdges x (List.mem_cons_of_mem e hx)
      have hUnion := hp.union he
      simp only [selectEdges]
      by_cases hJoined :
          (p.union (placesOf ends N e.edge).1
            (placesOf ends N e.edge).2).1 = true
      · have hApart := (hp.union_fst he).mp hJoined
        have hNew : e.edge ∉ S := fun hMem => hApart (.of_mem hMem)
        rw [if_pos hJoined]
        apply Selects.cons _ hLight
        apply ih hSorted' hEdges' hUnion
        · exact List.nodup_cons.mpr ⟨hNew, hS⟩
        · exact (isAcyclic_cons_iff hNew).mpr ⟨hAcyclic, hApart⟩
        · intro d hd
          rcases List.mem_cons.mp hd with rfl | hd
          · exact he
          · exact hEnds d hd
        · rw [List.length_cons]
          omega
      · have hConnected :
            Connects ends S (ends e.edge).1 (ends e.edge).2 :=
          not_not.mp (mt (hp.union_fst he).mpr hJoined)
        rw [if_neg hJoined]
        exact (ih hSorted' hEdges' (hUnion.of_connects hConnected) hS
          hAcyclic hEnds hMissing).skip hConnected

end Selecting

end DotLang
