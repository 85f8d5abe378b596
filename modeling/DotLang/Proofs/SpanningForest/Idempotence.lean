import DotLang.Proofs.FirstSeen
import DotLang.Proofs.SpanningForest.Correctness

/-
  This file proves that the minimum spanning forest of a minimum
  spanning forest is that forest itself.

  The edges of a forest close no cycle, so that all of them are
  selected again, in whatever order they are looked at.  What is
  made of them depends on the names, the tables and the places of
  what is copied only, and these are the same the second time.

  Key theorems include:
    * `Selects.eq_of_isAcyclic`
    * `Registry.ofForest_congr`
    * `Registry.IsForestCopy.spanningForest_eq`
    * `Registry.minimumSpanningTree_idempotent`
-/

------------------------------------------------------------
-- Forests Selected Again
------------------------------------------------------------

namespace DotLang

/- Of edges that close no cycle none is left out. -/
theorem Selects.eq_of_isAcyclic
    {ends : EdgeId → NodeId × NodeId}
    {weight : EdgeId → ℚ}
    {edges : List WeighedEdge}
    {C : List EdgeId}
    (h : Selects ends weight [] edges C)
    (hNodup : (edges.map WeighedEdge.edge).Nodup)
    (hAcyclic : IsAcyclic ends (edges.map WeighedEdge.edge)) :
    C = edges.map WeighedEdge.edge := by
  have hAll : edges.map WeighedEdge.edge ⊆ C := by
    intro e he
    by_contra hLeft
    have hOne : e :: C ⊆ edges.map WeighedEdge.edge :=
      List.cons_subset.mpr ⟨he, h.sublist.subset⟩
    have hApart :=
      ((isAcyclic_cons_iff hLeft).mp (hAcyclic.mono hOne)).2
    exact hApart ((h.connects_iff _ _).mpr (.of_mem he))
  exact h.sublist.eq_of_length_le
    (hNodup.subperm hAll).length_le

namespace Registry

variable {F : Factory}

/- The edges of a forest come in the order of their handles. -/
theorem spanningForest_edges_sorted
    (r : Registry F)
    (g : GraphId) :
    (r.spanningForest g).edges.Pairwise fun a b =>
      a.index ≤ b.index := by
  have hSorted :
      (r.spanningForest g).edges.Pairwise fun a b =>
        decide (a.index ≤ b.index) = true := by
    apply List.pairwise_mergeSort
    · intro a b c hAB hBC
      simp only [decide_eq_true_eq] at hAB hBC ⊢
      exact le_trans hAB hBC
    · intro a b
      simpa using le_total a.index b.index
  exact hSorted.imp of_decide_eq_true

/- A graph of which no edges close a cycle is its own forest. -/
theorem spanningForest_edges_eq
    {r : Registry F}
    {g : GraphId}
    (hSorted :
      (r.allEdges g).Pairwise fun a b => a.index ≤ b.index)
    (hNodup : (r.allEdges g).Nodup)
    (hAcyclic : IsAcyclic r.ends (r.allEdges g)) :
    (r.spanningForest g).edges = r.allEdges g := by
  have hAll := r.weighedEdges_perm g
  rcases r.exists_selects g with ⟨C, hPerm, hC⟩
  rw [hC.eq_of_isAcyclic (hAll.nodup_iff.mpr hNodup)
    (hAcyclic.mono hAll.subset)] at hPerm
  refine (hPerm.trans hAll).eq_of_pairwise ?_
    (r.spanningForest_edges_sorted g) hSorted
  intro a b _ _ hAB hBA
  exact congrArg EdgeId.mk (le_antisymm hAB hBA)

------------------------------------------------------------
-- Copies of the Same
------------------------------------------------------------

section Folds

variable {α β γ : Type} {R : α → β → Prop}
variable {f : γ → α → γ} {k : γ → β → γ}

/- Lists that correspond are worked through in the same way. -/
private theorem foldl_eq_of_forall₂
    {xs : List α}
    {ys : List β}
    (hStep : ∀ c a b, R a b → f c a = k c b)
    (h : List.Forall₂ R xs ys)
    (c : γ) :
    xs.foldl f c = ys.foldl k c := by
  induction h generalizing c with
  | nil => rfl
  | cons hHead _ ih =>
      rw [List.foldl_cons, List.foldl_cons, hStep c _ _ hHead]
      exact ih _

end Folds

/-
  What a registry of a forest is made of: two forests with the
  same names, tables and places make the same registry.
-/
theorem ofForest_congr
    {F' : Factory}
    {r : Registry F}
    {r' : Registry F'}
    {g g' : GraphId}
    {forest forest' : SpanningForest}
    (hName : (r.graph g).name = (r'.graph g').name)
    (hDirected : (r.graph g).directed = (r'.graph g').directed)
    (hAttributes :
      (r.graph g).attributes = (r'.graph g').attributes)
    (hNodes :
      List.Forall₂
        (fun n n' =>
          (r.node n).name = (r'.node n').name ∧
            (r.node n).attributes = (r'.node n').attributes)
        forest.nodes forest'.nodes)
    (hEdges :
      List.Forall₂
        (fun e e' =>
          placesOf r.ends forest.toPlacedNodes e =
              placesOf r'.ends forest'.toPlacedNodes e' ∧
            (r.edge e).attributes = (r'.edge e').attributes)
        forest.edges forest'.edges) :
    r.ofForest g forest = r'.ofForest g' forest' := by
  have hCopyNode :
      ∀ (root : GraphId) (made : List NodeId × Registry .plain)
        (n n' : NodeId),
        (r.node n).name = (r'.node n').name ∧
            (r.node n).attributes = (r'.node n').attributes →
          r.copyNode root made n = r'.copyNode root made n' := by
    rintro root made n n' ⟨hName, hAttributes⟩
    rw [copyNode, copyNode, hName, hAttributes]
  have hCopyEdge :
      ∀ (root : GraphId) (copies : List NodeId)
        (t : Registry .plain) (e e' : EdgeId),
        placesOf r.ends forest.toPlacedNodes e =
              placesOf r'.ends forest'.toPlacedNodes e' ∧
            (r.edge e).attributes = (r'.edge e').attributes →
          r.copyEdge root forest.toPlacedNodes copies t e =
            r'.copyEdge root forest'.toPlacedNodes copies t e' := by
    rintro root copies t e e' ⟨hPlaces, hAttributes⟩
    have hTail := congrArg Prod.fst hPlaces
    have hHead := congrArg Prod.snd hPlaces
    simp only [placesOf, ends] at hTail hHead
    rw [copyEdge, copyEdge, hTail, hHead, hAttributes]
  simp only [ofForest, hName, hDirected, hAttributes,
    foldl_eq_of_forall₂ (hCopyNode _) hNodes,
    foldl_eq_of_forall₂ (hCopyEdge _ _) hEdges]

------------------------------------------------------------
-- Forests of Copies
------------------------------------------------------------

variable {r : Registry F} {g : GraphId}
variable {N : List NodeId} {C : List EdgeId}
variable {t : Registry .plain}

namespace IsForestCopy

theorem extent_eq
    (h : r.IsForestCopy g N C t) :
    t.extent copyRoot = [copyRoot] := by
  have hNone : (t.graph copyRoot).children = [] := by
    rw [h.graph]
  rw [extent, subgraphs, hNone]
  cases t.graphs.size <;> rfl

theorem allNodes_eq
    (h : r.IsForestCopy g N C t) :
    t.allNodes copyRoot = t.nodeIds := by
  rw [allNodes, h.extent_eq, List.flatMap_singleton, h.graph]

theorem allEdges_eq
    (h : r.IsForestCopy g N C t) :
    t.allEdges copyRoot = t.edgeIds := by
  rw [allEdges, h.extent_eq, List.flatMap_singleton, h.graph]

/- A place in the list of all nodes is the index of the node. -/
theorem idxOf_nodeIds
    (h : r.IsForestCopy g N C t)
    {i : Nat}
    (hi : i < N.length) :
    t.nodeIds.idxOf ⟨i⟩ = i := by
  have hLength : i < t.nodeIds.length := by
    rw [h.nodeIds, List.length_map, List.length_range]
    exact hi
  have hAt : t.nodeIds[i] = ⟨i⟩ := by
    simp [h.nodeIds]
  rw [← hAt]
  exact (nodup_nodeIds t).idxOf_getElem i hLength

/- Each node of the copy is like the node in its place. -/
theorem forall₂_nodes
    (h : r.IsForestCopy g N C t) :
    List.Forall₂
      (fun n n' =>
        (r.node n).name = (t.node n').name ∧
          (r.node n).attributes = (t.node n').attributes)
      N t.nodeIds := by
  rw [h.nodeIds, List.forall₂_iff_get]
  refine ⟨by simp, fun i hi _ => ?_⟩
  rcases h.node (List.getElem?_eq_getElem hi) with
    ⟨hName, -, hAttributes⟩
  simp [hName, hAttributes]

/- Each edge of the copy is like the edge in its place. -/
theorem forall₂_edges
    {P Q : PlacedNodes}
    (h : r.IsForestCopy g P.nodes C t)
    (hP : P.IsPlaced)
    (hQ : Q.IsPlaced)
    (hAll : Q.nodes = t.nodeIds)
    (hEnds : ∀ e ∈ C, EndsIn r.ends P.nodes e) :
    List.Forall₂
      (fun e e' =>
        placesOf r.ends P e = placesOf t.ends Q e' ∧
          (r.edge e).attributes = (t.edge e').attributes)
      C t.edgeIds := by
  have hSame :
      ∀ n ∈ P.nodes, P.placeOf n = Q.placeOf ⟨P.nodes.idxOf n⟩ := by
    intro n hn
    rw [hP.placeOf_eq, hQ.placeOf_eq, hAll,
      h.idxOf_nodeIds (List.idxOf_lt_length_of_mem hn)]
  rw [h.edgeIds, List.forall₂_iff_get]
  refine ⟨by simp, fun i hi _ => ?_⟩
  have hEdge := h.edge (List.getElem?_eq_getElem hi)
  rcases hEnds C[i] (List.getElem_mem hi) with ⟨hTail, hHead⟩
  have hTail' := hSame _ hTail
  have hHead' := hSame _ hHead
  simp only [ends] at hTail' hHead'
  simp [placesOf, ends, hEdge, hTail', hHead']

/- Each edge is a copy of one that ends at copied nodes. -/
theorem exists_ends_eq
    (h : r.IsForestCopy g N C t)
    (hEnds : ∀ e ∈ C, EndsIn r.ends N e)
    {e : EdgeId}
    (he : e ∈ t.edgeIds) :
    ∃ d,
      C[e.index]? = some d ∧
        EndsIn r.ends N d ∧
        t.ends e =
          (⟨N.idxOf (r.ends d).1⟩, ⟨N.idxOf (r.ends d).2⟩) := by
  rw [h.edgeIds] at he
  rcases List.mem_map.mp he with ⟨i, hi, rfl⟩
  have hd := List.getElem?_eq_getElem (List.mem_range.mp hi)
  refine ⟨_, hd, hEnds _ (List.getElem_mem _), ?_⟩
  rw [ends, h.edge hd]
  rfl

/- All nodes of the copy are spanned, in the order of handles. -/
theorem spannedNodes_eq
    (h : r.IsForestCopy g N C t)
    (hEnds : ∀ e ∈ C, EndsIn r.ends N e) :
    (t.spannedNodes copyRoot).nodes = t.nodeIds := by
  have hMem : ∀ n ∈ N, ⟨N.idxOf n⟩ ∈ t.nodeIds := by
    intro n hn
    rw [h.nodeIds]
    exact List.mem_map_of_mem
      (List.mem_range.mpr (List.idxOf_lt_length_of_mem hn))
  rw [spannedNodes, PlacedNodes.nodes_foldl_meet, h.allNodes_eq,
    h.allEdges_eq]
  apply eraseDups_append_of_subset (nodup_nodeIds t)
  intro n hn
  rcases List.mem_flatMap.mp hn with ⟨e, he, hn⟩
  rcases h.exists_ends_eq hEnds he with ⟨d, -, hd, hEq⟩
  rcases List.mem_pair.mp hn with rfl | rfl
  · rw [(Prod.mk.inj hEq).1]
    exact hMem _ hd.1
  · rw [(Prod.mk.inj hEq).2]
    exact hMem _ hd.2

/- The copies of edges that close no cycle close none. -/
theorem isAcyclic_edgeIds
    (h : r.IsForestCopy g N C t)
    (hEnds : ∀ e ∈ C, EndsIn r.ends N e)
    (hNodup : C.Nodup)
    (hAcyclic : IsAcyclic r.ends C) :
    IsAcyclic t.ends t.edgeIds := by
  let original := fun e : EdgeId => C[e.index]?.getD e
  have hOriginal :
      ∀ {e d}, C[e.index]? = some d → original e = d := by
    intro e d hd
    simp only [original, hd, Option.getD_some]
  have hPlace :
      ∀ {a : NodeId}, a ∈ N → ∀ b, N.getD (N.idxOf a) b = a := by
    intro a ha b
    have hLt := List.idxOf_lt_length_of_mem ha
    rw [List.getD_eq_getElem?_getD, List.getElem?_eq_getElem hLt,
      List.getElem_idxOf, Option.getD_some]
  have hAll : t.edgeIds.map original = C := by
    rw [h.edgeIds, List.map_map]
    apply List.ext_getElem
    · simp
    · intro i _ hi
      simp [original, hi]
  rw [← hAll] at hAcyclic
  refine hAcyclic.of_map (fun n => N.getD n.index n) original ?_ ?_
  · intro e he
    rcases h.exists_ends_eq hEnds he with ⟨d, hd, hIn, hEq⟩
    rw [hOriginal hd, hEq]
    exact Prod.ext (hPlace hIn.1 _).symm (hPlace hIn.2 _).symm
  · intro e he e' he' hSame
    rcases h.exists_ends_eq hEnds he with ⟨d, hd, -⟩
    rcases h.exists_ends_eq hEnds he' with ⟨d', hd', -⟩
    rw [hOriginal hd, hOriginal hd'] at hSame
    have hLt := (List.getElem?_eq_some_iff.mp hd).1
    rw [hSame, ← hd'] at hd
    exact congrArg EdgeId.mk ((List.getElem?_inj hLt hNodup).mp hd)

/- The forest of a copy of a forest is all of it. -/
theorem spanningForest_eq
    (h : r.IsForestCopy g N C t)
    (hEnds : ∀ e ∈ C, EndsIn r.ends N e)
    (hNodup : C.Nodup)
    (hAcyclic : IsAcyclic r.ends C) :
    (t.spanningForest copyRoot).nodes = t.nodeIds ∧
      (t.spanningForest copyRoot).edges = t.edgeIds := by
  have hForest := h.isAcyclic_edgeIds hEnds hNodup hAcyclic
  rw [← h.allEdges_eq] at hForest ⊢
  refine ⟨h.spannedNodes_eq hEnds,
    spanningForest_edges_eq ?_ ?_ hForest⟩
  · rw [h.allEdges_eq, h.edgeIds]
    exact List.pairwise_le_range.map _ fun _ _ hLe => hLe
  · rw [h.allEdges_eq]
    exact nodup_edgeIds t

end IsForestCopy

/-
  The minimum spanning forest of a graph is a registry with one
  top level graph, and it is the minimum spanning forest of that
  graph: with the same nodes, edges and tables in their places.
-/
theorem minimumSpanningTree_idempotent
    (hReachable : r.Reachable)
    (g : GraphId) :
    let tree := r.minimumSpanningTree g
    ∃ root,
      tree.roots = [root] ∧
        tree.minimumSpanningTree root = tree := by
  intro tree
  have hForest := r.isMinimumForest_spanningForest g
  have hCopy :
      r.IsForestCopy g (r.spanningForest g).nodes
        (r.spanningForest g).edges tree :=
    isForestCopy_minimumSpanningTree
      (hReachable.isTabled.graph g).attributes
  have hEnds :
      ∀ e ∈ (r.spanningForest g).edges,
        EndsIn r.ends (r.spanningForest g).nodes e :=
    fun e he => endsIn_spannedNodes (hForest.edges_subset he)
  rcases hCopy.spanningForest_eq hEnds hForest.edges_nodup
    hForest.isAcyclic with ⟨hNodes, hEdges⟩
  refine ⟨copyRoot, hCopy.roots, ?_⟩
  have hRoot := hCopy.graph
  symm
  apply ofForest_congr
  · exact (congrArg Graph.name hRoot).symm
  · exact (congrArg Graph.directed hRoot).symm
  · exact (congrArg Graph.attributes hRoot).symm
  · rw [hNodes]
    exact hCopy.forall₂_nodes
  · rw [hEdges]
    exact hCopy.forall₂_edges (r.isPlaced_spannedNodes g)
      (tree.isPlaced_spannedNodes copyRoot) hNodes hEnds

/- The forest of two islands has a tree on each of them. -/
theorem minimumSpanningTree_idempotent_twoIslands :
    twoIslands.Reachable ∧
      ∃ root,
        (twoIslands.minimumSpanningTree ⟨0⟩).roots = [root] ∧
          (twoIslands.minimumSpanningTree
              ⟨0⟩).minimumSpanningTree root =
            twoIslands.minimumSpanningTree ⟨0⟩ := by
  have hReachable : twoIslands.Reachable :=
    .load _ (.empty (F := .plain) () {})
  exact ⟨hReachable, minimumSpanningTree_idempotent hReachable ⟨0⟩⟩

end Registry

end DotLang
