import DotLang.SpanningForest
import Mathlib.Data.List.Induction
import Mathlib.Data.List.Nodup

/-
  This file proves that the index of the nodes that were met has
  these nodes as its keys, and their places in the list of them
  as its values.

  One more node that is met keeps this so, and hence any number
  of them does.

  Key definitions include:
    * `PlacedNodes.IsPlaced`

  Key theorems include:
    * `PlacedNodes.IsPlaced.meet`
    * `PlacedNodes.IsPlaced.foldl_meet`
    * `PlacedNodes.nodes_foldl_meet`
    * `PlacedNodes.IsPlaced.placeOf_eq`
-/

namespace DotLang

/- What is added to a list stands behind it, at its length. -/
theorem getElem?_concat_eq_some_iff
    {α : Type}
    {l : List α}
    {a b : α}
    {i : Nat} :
    (l ++ [a])[i]? = some b ↔
      i = l.length ∧ a = b ∨ l[i]? = some b := by
  by_cases hEq : i = l.length
  · simp [hEq]
  · rw [List.getElem?_append]
    by_cases hLt : i < l.length
    · simp [hLt, hEq]
    · rw [if_neg hLt, List.getElem?_singleton, if_neg (by omega),
        List.getElem?_eq_none (by omega)]
      simp [hEq]

namespace PlacedNodes

variable {p : PlacedNodes} {a b n : NodeId}

------------------------------------------------------------
-- Keys and Places
------------------------------------------------------------

/- The index has the nodes in the list, each with its place. -/
def IsPlaced (p : PlacedNodes) : Prop :=
  ∀ (n : NodeId) (i : Nat),
    p.places[n]? = some i ↔ p.nodes[i]? = some n

theorem isPlaced_empty :
    IsPlaced {} := by
  intro n i
  simp

/- The keys of the index are the nodes in the list. -/
theorem IsPlaced.mem_places
    (h : p.IsPlaced) :
    n ∈ p.places ↔ n ∈ p.nodes := by
  rw [Std.ExtTreeMap.mem_iff_isSome_getElem?,
    Option.isSome_iff_exists, List.mem_iff_getElem?]
  exact exists_congr (h n)

/- No node is in two places, as it has one value at most. -/
theorem IsPlaced.nodup
    (h : p.IsPlaced) :
    p.nodes.Nodup := by
  rw [List.nodup_iff_getElem?_ne_getElem?]
  intro i j hLt hj hSame
  have hAt := List.getElem?_eq_getElem hj
  have hFirst := (h _ _).mpr (hSame.trans hAt)
  have hSecond := (h _ _).mpr hAt
  rw [hFirst, Option.some.injEq] at hSecond
  omega

/- The value of a node is the place that a search would find. -/
theorem IsPlaced.getElem?_places
    (h : p.IsPlaced)
    (n : NodeId) :
    p.places[n]? = p.nodes.idxOf? n := by
  ext i
  rw [h n i, List.idxOf?_eq_some_iff]
  constructor
  · intro hAt
    rcases List.getElem?_eq_some_iff.mp hAt with ⟨hi, rfl⟩
    refine ⟨hi, rfl, ?_⟩
    intro j hj hSame
    have hEq := (List.Nodup.getElem_inj_iff h.nodup).mp hSame
    omega
  · rintro ⟨hi, hAt, -⟩
    exact List.getElem?_eq_some_iff.mpr ⟨hi, hAt⟩

/- A node that was met is found in the index. -/
theorem IsPlaced.getElem?_places_of_mem
    (h : p.IsPlaced)
    (hn : n ∈ p.nodes) :
    p.places[n]? = some (p.placeOf n) :=
  Std.ExtTreeMap.getElem?_eq_some_getD (h.mem_places.mpr hn)

theorem IsPlaced.placeOf_eq
    (h : p.IsPlaced)
    (n : NodeId) :
    p.placeOf n = p.nodes.idxOf n := by
  rw [placeOf, Std.ExtTreeMap.getD_eq_getD_getElem?,
    h.getElem?_places, List.idxOf_eq_getD_idxOf?]

theorem IsPlaced.placeOf_lt
    (h : p.IsPlaced)
    (ha : a ∈ p.nodes) :
    p.placeOf a < p.nodes.length := by
  rw [h.placeOf_eq]
  exact List.idxOf_lt_length_of_mem ha

theorem IsPlaced.placeOf_inj
    (h : p.IsPlaced)
    (ha : a ∈ p.nodes) :
    p.placeOf a = p.placeOf b ↔ a = b := by
  rw [h.placeOf_eq, h.placeOf_eq, List.idxOf_inj ha]

------------------------------------------------------------
-- Meeting Nodes
------------------------------------------------------------

/- A node that is new is put behind, at the place it is given. -/
theorem IsPlaced.meet
    (h : p.IsPlaced)
    (n : NodeId) :
    (p.meet n).IsPlaced := by
  unfold PlacedNodes.meet
  by_cases hOld : n ∈ p.places
  · rwa [if_pos (Std.ExtTreeMap.contains_iff_mem.mpr hOld)]
  · rw [if_neg (mt Std.ExtTreeMap.contains_iff_mem.mp hOld)]
    intro m i
    rw [Std.ExtTreeMap.getElem?_insert, getElem?_concat_eq_some_iff]
    by_cases hEq : n = m
    · subst hEq
      have hNowhere : p.nodes[i]? ≠ some n := fun hAt =>
        hOld (h.mem_places.mpr (List.mem_of_getElem? hAt))
      simp [hNowhere, eq_comm]
    · simp [hEq, h m i]

theorem IsPlaced.foldl_meet
    (h : p.IsPlaced)
    (nodes : List NodeId) :
    (nodes.foldl PlacedNodes.meet p).IsPlaced := by
  induction nodes generalizing p with
  | nil => exact h
  | cons n nodes ih => exact ih (h.meet n)

theorem IsPlaced.nodes_meet
    (h : p.IsPlaced)
    (n : NodeId) :
    (p.meet n).nodes =
      if n ∈ p.nodes then p.nodes else p.nodes ++ [n] := by
  have hOld : p.places.contains n = true ↔ n ∈ p.nodes :=
    Std.ExtTreeMap.contains_iff_mem.trans h.mem_places
  unfold PlacedNodes.meet
  by_cases hMem : n ∈ p.nodes
  · rw [if_pos (hOld.mpr hMem), if_pos hMem]
  · rw [if_neg (mt hOld.mp hMem), if_neg hMem]

/- A node is met anew unless it is one of those before it. -/
theorem nodes_foldl_meet
    (nodes : List NodeId) :
    (nodes.foldl meet {}).nodes = nodes.eraseDups := by
  induction nodes using List.reverseRecOn with
  | nil => rfl
  | append_singleton nodes n ih =>
      have hPlaced := isPlaced_empty.foldl_meet nodes
      rw [List.foldl_append, List.foldl_cons, List.foldl_nil,
        hPlaced.nodes_meet, ih, List.eraseDups_append]
      by_cases hOld : n ∈ nodes
      · simp [List.removeAll, hOld]
      · simp [List.removeAll, hOld, List.eraseDups_cons]

end PlacedNodes

/- The nodes of a graph are met before the ends of its edges. -/
theorem Registry.isPlaced_spannedNodes
    {F : Factory}
    (r : Registry F)
    (g : GraphId) :
    (r.spannedNodes g).IsPlaced :=
  PlacedNodes.isPlaced_empty.foldl_meet _

end DotLang
