import DotLang.Proofs.Registry.Extent

/-
  This file numbers the entities of a graph in the order in
  which the text of the graph makes them again.

  A graph is made before the graphs inside it, and its nodes are
  made with it.  Its edges are made after those inside it.

  Key definitions include:
    * `CountsFrom`
    * `Numbering`
    * `Numbering.IsNumbering`
    * `Numbering.ofGraph`

  Key theorems include:
    * `Numbering.isNumbering_ofGraph`
-/

------------------------------------------------------------
-- Counting
------------------------------------------------------------

namespace DotLang

/- The items have indices in a row. -/
def CountsFrom
    {α : Type}
    (index : α → Nat)
    (start : Nat)
    (items : List α) : Prop :=
  items.map index = List.range' start items.length

namespace CountsFrom

variable
  {α : Type}
  {index : α → Nat}
  {start : Nat}
  {x y : α}
  {items others : List α}

theorem append_iff :
    CountsFrom index start (items ++ others) ↔
      CountsFrom index start items ∧
        CountsFrom index (start + items.length) others := by
  unfold CountsFrom
  rw [List.map_append, List.length_append, ← List.range'_append_1]
  constructor
  · intro h
    exact List.append_inj h (by simp)
  · rintro ⟨hItems, hOthers⟩
    rw [hItems, hOthers]

theorem cons_iff :
    CountsFrom index start (x :: items) ↔
      index x = start ∧ CountsFrom index (start + 1) items := by
  unfold CountsFrom
  rw [List.map_cons, List.length_cons, List.range'_succ,
    List.cons.injEq]

theorem inj
    (h : CountsFrom index start items)
    (hx : x ∈ items)
    (hy : y ∈ items)
    (hEq : index x = index y) :
    x = y := by
  have hNodup : (items.map index).Nodup := by
    rw [h]
    exact List.nodup_range' 1
  exact List.inj_on_of_nodup_map hNodup hx hy hEq

theorem bounds
    (h : CountsFrom index start items)
    (hx : x ∈ items) :
    start ≤ index x ∧ index x < start + items.length := by
  have hMem := List.mem_map_of_mem (f := index) hx
  rw [h] at hMem
  exact List.mem_range'_1.mp hMem

theorem pairwise
    (h : CountsFrom index start items)
    (hSub : others.Sublist items) :
    (others.map index).Pairwise (· < ·) := by
  have hAll : (items.map index).Pairwise (· < ·) := by
    rw [h]
    exact List.pairwise_lt_range' 1
  exact hAll.sublist (hSub.map index)

end CountsFrom

/- Items in a list without repetitions are counted by it. -/
theorem countsFrom_idxOf
    {α : Type}
    [DecidableEq α]
    {items : List α}
    (hNodup : items.Nodup) :
    CountsFrom (fun x => items.idxOf x) 0 items := by
  apply List.ext_getElem
  · simp
  · intro i hi hi'
    rw [List.getElem_map, List.getElem_range', hNodup.idxOf_getElem]
    omega

------------------------------------------------------------
-- Numberings
------------------------------------------------------------

namespace Registry

variable {F : Factory}

/- The edges of a graph in the order in which its text has them. -/
def madeEdges (r : Registry F) (root : GraphId) : List EdgeId :=
  r.edgesOf (r.postorderWithin r.graphs.size root)

end Registry

open Registry

variable {F : Factory}

/- A handle for each graph, node and edge. -/
structure Numbering where
  graph : GraphId → GraphId
  node : NodeId → NodeId
  edge : EdgeId → EdgeId

namespace Numbering

/-
  The handles are given out in the order in which the text of a
  graph makes its entities.
-/
structure IsNumbering
    (φ : Numbering)
    (r : Registry F)
    (root : GraphId) : Prop where
  graphs : CountsFrom (fun g => (φ.graph g).index) 0 (r.extent root)
  nodes :
    CountsFrom (fun n => (φ.node n).index) 0 (r.allNodes root)
  edges :
    CountsFrom (fun e => (φ.edge e).index) 0 (r.madeEdges root)

/- The handles are places in these orders. -/
def ofGraph
    (r : Registry F)
    (root : GraphId) : Numbering where
  graph g := ⟨(r.extent root).idxOf g⟩
  node n := ⟨(r.allNodes root).idxOf n⟩
  edge e := ⟨(r.madeEdges root).idxOf e⟩

theorem isNumbering_ofGraph
    {r : Registry F}
    {root : GraphId}
    (hForest : r.IsForest)
    (hScoped : r.IsScoped)
    (hLinked : r.IsLinked)
    (hRoot : r.HasGraph root) :
    (ofGraph r root).IsNumbering r root where
  graphs := countsFrom_idxOf (hForest.nodup_extent hRoot)
  nodes :=
    countsFrom_idxOf
      (nodup_nodesOf hScoped (hForest.nodup_extent hRoot))
  edges :=
    countsFrom_idxOf (nodup_edgesOf hLinked
      ((hForest.postorder_perm hRoot).nodup_iff.mpr
        (hForest.nodup_extent hRoot)))

end Numbering

end DotLang
