import DotLang.Proofs.Registry.Reachable
import DotLang.Proofs.SpanningForest.Copy
import DotLang.Proofs.SpanningForest.Minimum
import DotLang.Proofs.Weight

/-
  This file proves that the minimum spanning forest of a graph in
  a reachable registry is one.

  Edges of negative weight may be left out.  So the forest weighs
  least only among the choices that close no cycle, or that have
  no negative weight.

  Key definitions include:
    * `Registry.totalWeight`
    * `Registry.IsMinimumForest`

  Key theorems include:
    * `Registry.minimumSpanningTree_isMinimumForest`
-/

------------------------------------------------------------
-- Minimum Forests
------------------------------------------------------------

namespace DotLang

namespace Registry

variable {F : Factory}

/- The exact weight of an edge. -/
def exactWeight (r : Registry F) (e : EdgeId) : ℚ :=
  (r.edge e).attributes.exactWeight

/- The exact weight of some edges together. -/
def totalWeight (r : Registry F) (edges : List EdgeId) : ℚ :=
  (edges.map r.exactWeight).sum

/- Edges that connect the same nodes as all edges of a graph. -/
def ConnectsAll
    (r : Registry F)
    (g : GraphId)
    (edges : List EdgeId) : Prop :=
  ∀ a b,
    Connects r.ends edges a b ↔
      Connects r.ends (r.allEdges g) a b

/-
  The nodes and the edges of a minimum spanning forest.  Each
  component has one edge less than it has nodes.
-/
structure IsMinimumForest
    (r : Registry F)
    (g : GraphId)
    (nodes : List NodeId)
    (edges : List EdgeId) : Prop where
  nodes_nodup : nodes.Nodup
  mem_nodes :
    ∀ n,
      n ∈ nodes ↔
        n ∈ r.allNodes g ∨
          ∃ e ∈ r.allEdges g,
            n = (r.edge e).tail ∨ n = (r.edge e).head
  edges_nodup : edges.Nodup
  edges_subset : edges ⊆ r.allEdges g
  loopless : ∀ e ∈ edges, (r.edge e).tail ≠ (r.edge e).head
  isAcyclic : IsAcyclic r.ends edges
  connectsAll : r.ConnectsAll g edges
  components :
    ∃ reps,
      IsTransversal r.ends (r.allEdges g) nodes reps ∧
        edges.length + reps.length = nodes.length
  totalWeight_le :
    ∀ S : List EdgeId,
      S.Nodup →
      S ⊆ r.allEdges g →
      r.ConnectsAll g S →
      (IsAcyclic r.ends S ∨ ∀ e ∈ S, 0 ≤ r.exactWeight e) →
        r.totalWeight edges ≤ r.totalWeight S

------------------------------------------------------------
-- Nodes and Edges
------------------------------------------------------------

theorem mem_spannedNodes
    (r : Registry F)
    (g : GraphId)
    (n : NodeId) :
    n ∈ (r.spannedNodes g).nodes ↔
      n ∈ r.allNodes g ∨
        ∃ e ∈ r.allEdges g,
          n = (r.edge e).tail ∨ n = (r.edge e).head := by
  simp only [spannedNodes, PlacedNodes.nodes_foldl_meet,
    List.mem_eraseDups, List.mem_append, List.mem_flatMap,
    List.mem_cons, List.not_mem_nil, or_false]

theorem endsIn_spannedNodes
    {r : Registry F}
    {g : GraphId}
    {e : EdgeId}
    (he : e ∈ r.allEdges g) :
    EndsIn r.ends (r.spannedNodes g).nodes e :=
  ⟨(r.mem_spannedNodes g _).mpr (.inr ⟨e, he, .inl rfl⟩),
    (r.mem_spannedNodes g _).mpr (.inr ⟨e, he, .inr rfl⟩)⟩

theorem weighedEdges_perm
    (r : Registry F)
    (g : GraphId) :
    ((r.weighedEdges g).map WeighedEdge.edge).Perm
      (r.allEdges g) := by
  refine ((List.mergeSort_perm _ _).map _).trans ?_
  rw [List.map_map]
  exact .of_eq (List.map_id _)

theorem endsIn_of_mem_weighedEdges
    {r : Registry F}
    {g : GraphId}
    (x : WeighedEdge)
    (hx : x ∈ r.weighedEdges g) :
    EndsIn r.ends (r.spannedNodes g).nodes x.edge :=
  endsIn_spannedNodes
    ((r.weighedEdges_perm g).mem_iff.mp (List.mem_map_of_mem hx))

theorem weight_of_mem_weighedEdges
    {r : Registry F}
    {g : GraphId}
    {x : WeighedEdge}
    (hx : x ∈ r.weighedEdges g) :
    x.weight = (r.edge x.edge).attributes.weight := by
  rw [weighedEdges, List.mem_mergeSort] at hx
  rcases List.mem_map.mp hx with ⟨e, -, rfl⟩
  rfl

/- The edges come in the order of their exact weights. -/
theorem weighedEdges_sorted
    (r : Registry F)
    (g : GraphId) :
    (r.weighedEdges g).Pairwise fun x y =>
      r.exactWeight x.edge ≤ r.exactWeight y.edge := by
  have hRanks :
      (r.weighedEdges g).Pairwise fun x y =>
        decide (x.weight.rank ≤ y.weight.rank) = true := by
    apply List.pairwise_mergeSort
    · intro x y z hXY hYZ
      simp only [decide_eq_true_eq] at hXY hYZ ⊢
      exact le_trans hXY hYZ
    · intro x y
      simpa using le_total x.weight.rank y.weight.rank
  apply hRanks.imp_of_mem
  intro x y hx hy hLe
  rw [weight_of_mem_weighedEdges hx, weight_of_mem_weighedEdges hy,
    decide_eq_true_eq] at hLe
  exact AttributeTable.exactWeight_le_of_rank_le hLe

------------------------------------------------------------
-- The Selected Forest
------------------------------------------------------------

/-
  The selection that the spanning forest is made of, for weights
  that do not fall in the order of the edges.
-/
theorem exists_selects_of_sorted
    {r : Registry F}
    {g : GraphId}
    {weight : EdgeId → ℚ}
    (hSorted :
      (r.weighedEdges g).Pairwise fun x y =>
        weight x.edge ≤ weight y.edge) :
    ∃ C,
      (r.spanningForest g).edges.Perm C ∧
        Selects r.ends weight [] (r.weighedEdges g) C := by
  refine ⟨_, List.mergeSort_perm _ _,
    selects_selectEdges hSorted endsIn_of_mem_weighedEdges
      (Partition.represents_singletons r.ends
        (r.isPlaced_spannedNodes g))
      List.nodup_nil isAcyclic_nil nofun ?_⟩
  rw [List.length_nil]
  omega

theorem exists_selects
    (r : Registry F)
    (g : GraphId) :
    ∃ C,
      (r.spanningForest g).edges.Perm C ∧
        Selects r.ends r.exactWeight [] (r.weighedEdges g) C :=
  exists_selects_of_sorted (r.weighedEdges_sorted g)

theorem isMinimumForest_spanningForest
    (r : Registry F)
    (g : GraphId) :
    r.IsMinimumForest g
      (r.spanningForest g).nodes (r.spanningForest g).edges := by
  have hNodes := (r.isPlaced_spannedNodes g).nodup
  have hAll := r.weighedEdges_perm g
  rcases r.exists_selects g with ⟨C, hPerm, hC⟩
  have hNodup := hC.nodup
  have hAcyclic := hC.isAcyclic
  rw [List.append_nil] at hNodup hAcyclic
  have hSubset : (r.spanningForest g).edges ⊆ r.allEdges g := by
    intro e he
    exact hAll.subset (hC.sublist.subset (hPerm.subset he))
  have hForest : IsAcyclic r.ends (r.spanningForest g).edges :=
    hAcyclic.mono hPerm.subset
  have hConnects : r.ConnectsAll g (r.spanningForest g).edges := by
    intro a b
    constructor
    · intro h
      exact h.mono hSubset
    · intro h
      have hSelected :=
        (hC.connects_iff a b).mpr (h.mono hAll.symm.subset)
      exact hSelected.mono hPerm.symm.subset
  refine
    { nodes_nodup := hNodes
      mem_nodes := r.mem_spannedNodes g
      edges_nodup := hPerm.nodup_iff.mpr hNodup
      edges_subset := hSubset
      loopless := ?_
      isAcyclic := hForest
      connectsAll := hConnects
      components := ?_
      totalWeight_le := ?_ }
  · intro e he hLoop
    have hJoins :
        JoinsEnds r.ends e (r.edge e).tail (r.edge e).tail :=
      .inl (Prod.ext rfl hLoop.symm)
    have hNil := hForest _ [e] (.cons hJoins (.nil _))
      (List.nodup_singleton e) (by simpa using he)
    cases hNil
  · rcases exists_isTransversal hNodes (hPerm.nodup_iff.mpr hNodup)
        hForest fun e he => endsIn_spannedNodes (hSubset he) with
      ⟨reps, hReps, hLength⟩
    refine ⟨reps, ⟨hReps.nodup, hReps.subset, ?_, ?_⟩, hLength⟩
    · intro a b ha hb hJoined
      exact hReps.apart ha hb ((hConnects a b).mpr hJoined)
    · intro n hn
      rcases hReps.covers hn with ⟨a, ha, hJoined⟩
      exact ⟨a, ha, (hConnects n a).mp hJoined⟩
  · intro S hS hSub hSame hFair
    have hSum := (hPerm.map r.exactWeight).sum_eq
    refine hSum.trans_le
      (hC.sum_le hNodes endsIn_of_mem_weighedEdges hS
        (List.Subset.trans hSub hAll.symm.subset) ?_ hFair)
    intro e he
    exact (hSame _ _).mpr (.of_mem (hAll.subset he))

------------------------------------------------------------
-- Minimum Spanning Trees
------------------------------------------------------------

variable {r : Registry F}

/- The copies weigh as much as what they are made from. -/
theorem IsForestCopy.totalWeight_edgeIds
    {g : GraphId}
    {nodes : List NodeId}
    {edges : List EdgeId}
    {t : Registry .plain}
    (h : r.IsForestCopy g nodes edges t) :
    t.totalWeight t.edgeIds = r.totalWeight edges := by
  apply congrArg List.sum
  rw [h.edgeIds, List.map_map]
  apply List.ext_getElem
  · simp
  · intro i hLeft hRight
    rw [List.length_map] at hRight
    simp only [List.getElem_map, List.getElem_range,
      Function.comp_apply, exactWeight,
      h.edge (List.getElem?_eq_getElem hRight)]

/- The registry that is computed is a copy of the forest. -/
theorem isForestCopy_minimumSpanningTree
    {g : GraphId}
    (hTable : (r.graph g).attributes.IsMap fun _ => True) :
    r.IsForestCopy g (r.spanningForest g).nodes
      (r.spanningForest g).edges (r.minimumSpanningTree g) :=
  isForestCopy_ofForest hTable (r.isPlaced_spannedNodes g)
    fun _ he =>
      endsIn_spannedNodes
        ((r.isMinimumForest_spanningForest g).edges_subset he)

/-
  The registry that is computed for a graph holds copies of the
  nodes and the edges of a minimum spanning forest of it.
-/
theorem minimumSpanningTree_isMinimumForest
    (hReachable : r.Reachable)
    (g : GraphId) :
    ∃ nodes edges,
      r.IsForestCopy g nodes edges (r.minimumSpanningTree g) ∧
        r.IsMinimumForest g nodes edges :=
  ⟨_, _,
    isForestCopy_minimumSpanningTree
      (hReachable.isTabled.graph g).attributes,
    r.isMinimumForest_spanningForest g⟩

/- Two components, a loop, and edges with several weights. -/
def twoIslands : Registry .plain :=
  (Registry.load (.empty () {})
    "graph g \x7ba--b [weight=2] b--c subgraph \x7ba--c c--c\x7d d--e [weight=-1]\x7d").registry

theorem minimumSpanningTree_twoIslands :
    twoIslands.Reachable ∧
      ∃ nodes edges,
        twoIslands.IsForestCopy ⟨0⟩ nodes edges
            (twoIslands.minimumSpanningTree ⟨0⟩) ∧
          twoIslands.IsMinimumForest ⟨0⟩ nodes edges := by
  have hReachable : twoIslands.Reachable :=
    .load _ (.empty (F := .plain) () {})
  exact ⟨hReachable,
    minimumSpanningTree_isMinimumForest hReachable ⟨0⟩⟩

/- Two edges of negative weight between the same nodes. -/
def twoDebts : Registry .plain :=
  (Registry.load (.empty () {})
    "graph g \x7ba--b [weight=-5] a--b [weight=-3]\x7d").registry

theorem spanningForest_twoDebts :
    (twoDebts.spanningForest ⟨0⟩).edges = [⟨0⟩] := by
  have hSorted :
      twoDebts.weighedEdges ⟨0⟩ =
        (twoDebts.allEdges ⟨0⟩).map fun e =>
          ⟨(twoDebts.edge e).attributes.weight, e⟩ :=
    List.mergeSort_of_pairwise (by decide +kernel)
  have hSelected :
      (selectEdges
          (fun e =>
            ((twoDebts.spannedNodes ⟨0⟩).placeOf
                (twoDebts.edge e).tail,
              (twoDebts.spannedNodes ⟨0⟩).placeOf
                (twoDebts.edge e).head))
          ((twoDebts.spannedNodes ⟨0⟩).nodes.length - 1)
          (.singletons (twoDebts.spannedNodes ⟨0⟩).nodes.length)
          ((twoDebts.allEdges ⟨0⟩).map fun e =>
            ⟨(twoDebts.edge e).attributes.weight, e⟩)).1 =
        [⟨0⟩] := by
    decide +kernel
  simp only [spanningForest, hSorted, hSelected]
  exact List.mergeSort_singleton _

/- Both edges together weigh less than the one that is selected. -/
theorem minimumSpanningTree_not_lightest :
    twoDebts.Reachable ∧
      ∃ S : List EdgeId,
        S.Nodup ∧
          S ⊆ twoDebts.allEdges ⟨0⟩ ∧
          twoDebts.ConnectsAll ⟨0⟩ S ∧
          twoDebts.totalWeight S <
            (twoDebts.minimumSpanningTree ⟨0⟩).totalWeight
              (twoDebts.minimumSpanningTree ⟨0⟩).edgeIds := by
  have hReachable : twoDebts.Reachable :=
    .load _ (.empty (F := .plain) () {})
  have hCopy :=
    isForestCopy_minimumSpanningTree
      (hReachable.isTabled.graph ⟨0⟩).attributes
  refine ⟨hReachable, twoDebts.allEdges ⟨0⟩, by decide +kernel,
    List.Subset.refl _, fun _ _ => Iff.rfl, ?_⟩
  rw [hCopy.totalWeight_edgeIds, spanningForest_twoDebts]
  decide +kernel

end Registry

end DotLang
