import DotLang.Proofs.Dot.RoundTrip
import DotLang.Proofs.SpanningForest.Correctness

/-
  This file proves which edges a minimum spanning forest is made
  of, also where several edges weigh the same.

  Edges are looked at one after the other, and an edge is left
  out exactly if those before it connect its ends.  Of two edges
  that are equally heavy, the one that comes first in the walk
  through the graph and its subgraphs is looked at first.  This
  is the one that was declared first if both belong to the same
  graph, but not in general.  And minus zero comes before zero.

  Key definitions include:
    * `Registry.IsJoinedBy`
    * `Registry.comesBefore`
    * `Registry.isDeclaredBefore`

  Key theorems include:
    * `Selects.mem_iff_not_connects`
    * `Registry.pairwise_comesBefore`
    * `Registry.mem_spanningForest_iff`
    * `Registry.comesBefore_iff_of_owner_eq`
    * `Registry.mem_minimumSpanningTree_iff`
-/

------------------------------------------------------------
-- Places in Ordered Lists
------------------------------------------------------------

namespace DotLang

/- In an ordered list, what is smaller stands before. -/
theorem idxOf_lt_iff_of_pairwise
    {α : Type}
    [DecidableEq α]
    {R : α → α → Prop}
    {l : List α}
    {a b : α}
    (hPairwise : l.Pairwise R)
    (ha : a ∈ l)
    (hb : b ∈ l)
    (hAsymm : R a b → ¬ R b a) :
    l.idxOf a < l.idxOf b ↔ R a b := by
  have hInTurn :
      ∀ {x y : α}, x ∈ l → y ∈ l → l.idxOf x < l.idxOf y → R x y := by
    intro x y hx hy hLt
    have hPair :=
      List.pairwise_iff_getElem.mp hPairwise _ _
        (List.idxOf_lt_length_of_mem hx)
        (List.idxOf_lt_length_of_mem hy) hLt
    rwa [List.getElem_idxOf, List.getElem_idxOf] at hPair
  constructor
  · exact hInTurn ha hb
  · intro hR
    rcases lt_trichotomy (l.idxOf a) (l.idxOf b) with
      hLt | hSame | hGt
    · exact hLt
    · have hEq := (List.idxOf_inj ha).mp hSame
      subst hEq
      exact absurd hR (hAsymm hR)
    · exact absurd (hInTurn hb ha hGt) (hAsymm hR)

------------------------------------------------------------
-- Selections From Distinct Weights
------------------------------------------------------------

section Selecting

variable {ends : EdgeId → NodeId × NodeId} {weight : EdgeId → ℚ}
variable {edges : List WeighedEdge} {C : List EdgeId}

/-
  If no two edges weigh the same, those are selected whose ends
  the lighter ones leave apart.
-/
theorem Selects.mem_iff_not_connects
    (h : Selects ends weight [] edges C)
    (hDistinct :
      ∀ x ∈ edges, ∀ y ∈ edges,
        weight x.edge = weight y.edge → x.edge = y.edge)
    {e : WeighedEdge}
    (he : e ∈ edges) :
    e.edge ∈ C ↔
      ¬ Connects ends
        ((edges.map WeighedEdge.edge).filter
          fun d => weight d < weight e.edge)
        (ends e.edge).1 (ends e.edge).2 := by
  have hLight :
      ∀ x ∈ edges,
        Connects ends (C.filter fun d => weight d ≤ weight x.edge)
          (ends x.edge).1 (ends x.edge).2 := by
    intro x hx
    simpa using h.light x hx
  have hAcyclic := h.isAcyclic
  rw [List.append_nil] at hAcyclic
  constructor
  · -- The selected ones of the lighter edges connect as much.
    intro hMem hConnects
    let D := C.filter fun d => weight d < weight e.edge
    have hNew : e.edge ∉ D := by simp [D]
    have hOne : e.edge :: D ⊆ C :=
      List.cons_subset.mpr ⟨hMem, List.filter_subset_self _⟩
    apply ((isAcyclic_cons_iff hNew).mp (hAcyclic.mono hOne)).2
    apply hConnects.of_ends
    intro d hd
    rcases List.mem_filter.mp hd with ⟨hEdge, hLess⟩
    rcases List.mem_map.mp hEdge with ⟨x, hx, rfl⟩
    refine (hLight x hx).mono
      (List.monotone_filter_right C ?_).subset
    intro c hc
    simp only [decide_eq_true_eq] at hLess hc ⊢
    exact hc.trans_lt hLess
  · intro hApart
    by_contra hLeft
    apply hApart
    refine (hLight e he).mono ?_
    intro d hd
    rcases List.mem_filter.mp hd with ⟨hMem, hLe⟩
    have hEdge := h.sublist.subset hMem
    rcases List.mem_map.mp hEdge with ⟨x, hx, rfl⟩
    have hNe : weight x.edge ≠ weight e.edge := by
      intro hSame
      rw [hDistinct x hx e he hSame] at hMem
      exact hLeft hMem
    apply List.mem_filter.mpr
    refine ⟨hEdge, ?_⟩
    simp only [decide_eq_true_eq] at hLe ⊢
    exact lt_of_le_of_ne hLe hNe

end Selecting

------------------------------------------------------------
-- Orders of Edges
------------------------------------------------------------

namespace Registry

variable {F : Factory} {r : Registry F} {g : GraphId}

/- Edges connect the ends of an edge. -/
def IsJoinedBy
    (r : Registry F)
    (edges : List EdgeId)
    (e : EdgeId) : Prop :=
  Connects r.ends edges (r.edge e).tail (r.edge e).head

/- The rank of the weight of an edge. -/
def weightRank (r : Registry F) (e : EdgeId) : Int :=
  (r.edge e).attributes.weight.rank

/-
  An edge has the lower rank, or the same rank and stands before
  another one among the edges of a graph and inside it.
-/
def comesBefore
    (r : Registry F)
    (g : GraphId)
    (d e : EdgeId) : Bool :=
  r.weightRank d < r.weightRank e ||
    (r.weightRank d = r.weightRank e &&
      (r.allEdges g).idxOf d < (r.allEdges g).idxOf e)

/-
  An edge is lighter than another one, or is equally heavy and
  was made before it.
-/
def isDeclaredBefore (r : Registry F) (d e : EdgeId) : Bool :=
  r.exactWeight d < r.exactWeight e ||
    (r.exactWeight d = r.exactWeight e && d.index < e.index)

theorem comesBefore_iff
    {d e : EdgeId} :
    r.comesBefore g d e = true ↔
      r.weightRank d < r.weightRank e ∨
        (r.weightRank d = r.weightRank e ∧
          (r.allEdges g).idxOf d < (r.allEdges g).idxOf e) := by
  simp [comesBefore]

theorem isDeclaredBefore_iff
    {d e : EdgeId} :
    r.isDeclaredBefore d e = true ↔
      r.exactWeight d < r.exactWeight e ∨
        (r.exactWeight d = r.exactWeight e ∧
          d.index < e.index) := by
  simp [isDeclaredBefore]

theorem not_comesBefore_of_comesBefore
    {d e : EdgeId}
    (h : r.comesBefore g d e = true) :
    r.comesBefore g e d ≠ true := by
  rw [Ne, comesBefore_iff]
  rw [comesBefore_iff] at h
  omega

/- Lighter edges come before heavier ones. -/
theorem comesBefore_of_exactWeight_lt
    {d e : EdgeId}
    (hLess : r.exactWeight d < r.exactWeight e) :
    r.comesBefore g d e = true := by
  apply comesBefore_iff.mpr
  left
  by_contra hRank
  exact hLess.not_ge
    (AttributeTable.exactWeight_le_of_rank_le (not_lt.mp hRank))

/-
  Both orders are the same up to an edge if they are the same for
  the edges that are as heavy as it.
-/
theorem comesBefore_eq_isDeclaredBefore
    {d e : EdgeId}
    (hTies :
      r.exactWeight d = r.exactWeight e →
        (r.comesBefore g d e = true ↔ d.index < e.index)) :
    r.comesBefore g d e = r.isDeclaredBefore d e := by
  rw [Bool.eq_iff_iff, isDeclaredBefore_iff]
  rcases lt_trichotomy (r.exactWeight d) (r.exactWeight e) with
    hLess | hSame | hMore
  · simp [hLess, comesBefore_of_exactWeight_lt hLess]
  · simp [hSame, hTies hSame]
  · have hNot := not_comesBefore_of_comesBefore
      (comesBefore_of_exactWeight_lt (g := g) hMore)
    simp [hNot, hMore.not_gt, hMore.ne']

------------------------------------------------------------
-- The Order of the Selection
------------------------------------------------------------

/- The edges of a graph in the order they are looked at. -/
def edgesInTurn (r : Registry F) (g : GraphId) : List EdgeId :=
  (r.weighedEdges g).map WeighedEdge.edge

theorem edgesInTurn_eq
    (r : Registry F)
    (g : GraphId) :
    r.edgesInTurn g =
      (r.allEdges g).mergeSort
        fun d e => r.weightRank d ≤ r.weightRank e := by
  rw [edgesInTurn, weighedEdges, ← List.map_mergeSort]
  · rw [List.map_map]
    exact List.map_id _
  · intro d _ e _
    rfl

/- Edges of one rank stay in the order they had. -/
theorem pairwise_comesBefore
    (hNodup : (r.allEdges g).Nodup) :
    (r.edgesInTurn g).Pairwise fun d e =>
      r.comesBefore g d e = true := by
  let le : EdgeId → EdgeId → Bool :=
    fun d e => r.weightRank d ≤ r.weightRank e
  have hTrans :
      ∀ a b c, le a b = true → le b c = true → le a c = true := by
    intro a b c hAB hBC
    simp only [le, decide_eq_true_eq] at hAB hBC ⊢
    exact le_trans hAB hBC
  have hTotal : ∀ a b, (le a b || le b a) = true := by
    intro a b
    simpa [le] using le_total (r.weightRank a) (r.weightRank b)
  have hPlace :
      ∀ x ∈ (r.allEdges g).zipIdx,
        (r.allEdges g).idxOf x.1 = x.2 := by
    rintro ⟨d, i⟩ hx
    rcases List.mem_zipIdx' hx with ⟨hLt, hAt⟩
    rw [hAt]
    exact hNodup.idxOf_getElem i hLt
  have hSorted :
      ((r.allEdges g).zipIdx.mergeSort (List.zipIdxLE le)).Pairwise
        fun x y => List.zipIdxLE le x y = true :=
    List.pairwise_mergeSort (List.zipIdxLE_trans hTrans)
      (List.zipIdxLE_total hTotal) _
  have hDistinct :
      ((r.allEdges g).mergeSort le).Pairwise (· ≠ ·) :=
    (List.mergeSort_perm _ _).nodup_iff.mpr hNodup
  rw [edgesInTurn_eq]
  rw [← List.mergeSort_zipIdx, List.pairwise_map] at hDistinct ⊢
  refine (hSorted.and hDistinct).imp_of_mem ?_
  rintro x y hx hy ⟨hLe, hNe⟩
  have hX := hPlace x (List.mem_mergeSort.mp hx)
  have hY := hPlace y (List.mem_mergeSort.mp hy)
  have hPlaces : x.2 ≠ y.2 := by
    rw [← hX, ← hY, Ne, List.idxOf_inj]
    · exact hNe
    · exact List.fst_mem_of_mem_zipIdx (List.mem_mergeSort.mp hx)
  rw [comesBefore_iff, hX, hY]
  simp only [List.zipIdxLE, le, decide_eq_true_eq] at hLe
  split at hLe
  · split at hLe
    · rw [decide_eq_true_eq] at hLe
      omega
    · omega
  · cases hLe

/- An edge is looked at before those that it comes before. -/
theorem idxOf_edgesInTurn_lt_iff
    (hNodup : (r.allEdges g).Nodup)
    {d e : EdgeId}
    (hd : d ∈ r.edgesInTurn g)
    (he : e ∈ r.edgesInTurn g) :
    (r.edgesInTurn g).idxOf d < (r.edgesInTurn g).idxOf e ↔
      r.comesBefore g d e = true :=
  idxOf_lt_iff_of_pairwise (pairwise_comesBefore hNodup) hd he
    not_comesBefore_of_comesBefore

------------------------------------------------------------
-- The Selected Edges
------------------------------------------------------------

theorem mem_edgesInTurn
    {e : EdgeId} :
    e ∈ r.edgesInTurn g ↔ e ∈ r.allEdges g :=
  (r.weighedEdges_perm g).mem_iff

/- Places in the order of the selection do not fall. -/
theorem weighedEdges_inTurn
    (hNodup : (r.allEdges g).Nodup) :
    (r.weighedEdges g).Pairwise fun x y =>
      ((r.edgesInTurn g).idxOf x.edge : ℚ) ≤
        (r.edgesInTurn g).idxOf y.edge := by
  have hBefore := pairwise_comesBefore hNodup
  rw [edgesInTurn, List.pairwise_map] at hBefore
  refine hBefore.imp_of_mem ?_
  intro x y hx hy hLt
  rw [Nat.cast_le]
  exact ((idxOf_edgesInTurn_lt_iff hNodup
    (List.mem_map_of_mem hx) (List.mem_map_of_mem hy)).mpr hLt).le

/-
  An edge is selected unless edges that come before it connect
  its ends.
-/
theorem mem_spanningForest_iff
    (hNodup : (r.allEdges g).Nodup)
    {e : EdgeId}
    (he : e ∈ r.allEdges g) :
    e ∈ (r.spanningForest g).edges ↔
      ¬ r.IsJoinedBy
        ((r.allEdges g).filter fun d => r.comesBefore g d e) e := by
  let place : EdgeId → ℚ := fun d => (r.edgesInTurn g).idxOf d
  have hPlaces :
      (r.weighedEdges g).Pairwise fun x y =>
        place x.edge ≤ place y.edge :=
    weighedEdges_inTurn hNodup
  rcases exists_selects_of_sorted hPlaces with ⟨C, hPerm, hC⟩
  have he := mem_edgesInTurn.mpr he
  rcases List.mem_map.mp he with ⟨x, hx, rfl⟩
  have hSelected := hC.mem_iff_not_connects
    (fun y hy z _ hSame =>
      (List.idxOf_inj (List.mem_map_of_mem hy)).mp
        (Nat.cast_injective hSame)) hx
  rw [hPerm.mem_iff, hSelected, IsJoinedBy]
  have hSubset :
      ∀ d,
        d ∈ (r.edgesInTurn g).filter
              (fun d =>
                ((r.edgesInTurn g).idxOf d : ℚ) <
                  (r.edgesInTurn g).idxOf x.edge) ↔
          d ∈ (r.allEdges g).filter
              fun d => r.comesBefore g d x.edge := by
    intro d
    rw [List.mem_filter, List.mem_filter, decide_eq_true_eq,
      Nat.cast_lt, ← mem_edgesInTurn]
    exact and_congr_right fun hd =>
      idxOf_edgesInTurn_lt_iff hNodup hd he
  exact not_congr
    ⟨fun h => h.mono fun d => (hSubset d).mp,
      fun h => h.mono fun d => (hSubset d).mpr⟩

/- A rule that holds where both orders agree on equal weights. -/
theorem mem_spanningForest_iff_of_ties
    (hNodup : (r.allEdges g).Nodup)
    {e : EdgeId}
    (he : e ∈ r.allEdges g)
    (hTies :
      ∀ d ∈ r.allEdges g,
        r.exactWeight d = r.exactWeight e →
          (r.comesBefore g d e = true ↔ d.index < e.index)) :
    e ∈ (r.spanningForest g).edges ↔
      ¬ r.IsJoinedBy
        ((r.allEdges g).filter fun d => r.isDeclaredBefore d e)
        e := by
  rw [mem_spanningForest_iff hNodup he,
    List.filter_congr fun d hd =>
      comesBefore_eq_isDeclaredBefore (hTies d hd)]

------------------------------------------------------------
-- Edges of One Graph
------------------------------------------------------------

/- The edges of a graph stand in the order they were made in. -/
theorem pairwise_edges_index
    (hLinked : r.IsLinked)
    (g : GraphId) :
    (r.graph g).edges.Pairwise fun d e => d.index < e.index := by
  rw [hLinked.edges_eq]
  apply List.Pairwise.filter
  exact List.pairwise_lt_range.map _ fun _ _ hLt => hLt

/- So do those edges inside a graph that belong together. -/
theorem pairwise_allEdges_index
    (hForest : r.IsForest)
    (hLinked : r.IsLinked)
    (hg : r.HasGraph g) :
    (r.allEdges g).Pairwise fun d e =>
      (r.edge d).owner = (r.edge e).owner → d.index < e.index := by
  apply List.pairwise_flatMap.mpr
  constructor
  · intro h _
    refine (pairwise_edges_index hLinked h).imp ?_
    intro d e hLt _
    exact hLt
  · refine (hForest.nodup_extent hg).imp ?_
    intro f h hNe d hd e he hOwner
    rw [(hLinked.mem_edges.mp hd).2,
      (hLinked.mem_edges.mp he).2] at hOwner
    exact absurd hOwner hNe

theorem nodup_allEdges
    (hForest : r.IsForest)
    (hLinked : r.IsLinked)
    (hg : r.HasGraph g) :
    (r.allEdges g).Nodup :=
  nodup_edgesOf hLinked (hForest.nodup_extent hg)

/- Of edges of one graph the one made first comes first. -/
theorem comesBefore_iff_of_owner_eq
    (hForest : r.IsForest)
    (hLinked : r.IsLinked)
    (hg : r.HasGraph g)
    {d e : EdgeId}
    (hd : d ∈ r.allEdges g)
    (he : e ∈ r.allEdges g)
    (hOwner : (r.edge d).owner = (r.edge e).owner)
    (hRank : r.weightRank d = r.weightRank e) :
    r.comesBefore g d e = true ↔ d.index < e.index := by
  have hPlaces := idxOf_lt_iff_of_pairwise
    (pairwise_allEdges_index hForest hLinked hg) hd he
    fun hLt hGt => (hLt hOwner).asymm (hGt hOwner.symm)
  rw [comesBefore_iff, hPlaces, hRank]
  simp [hOwner]

------------------------------------------------------------
-- Spanning Trees of Loaded Graphs
------------------------------------------------------------

/-
  Whatever text is loaded, the minimum spanning forest of a graph
  holds copies of those edges whose ends are left apart by the
  edges that come before them.  These are the lighter ones and
  the equally heavy ones that were declared before, if equally
  heavy edges come in the order in which they were declared.
  They do if they belong to one graph and have the same rank.
-/
theorem mem_minimumSpanningTree_iff
    (factory : F.State)
    (options : Options)
    (source : String) :
    let r :=
      ((empty factory options : Registry F).load source).registry
    ∀ g : GraphId,
      r.HasGraph g →
        r.IsForestCopy g (r.spanningForest g).nodes
            (r.spanningForest g).edges (r.minimumSpanningTree g) ∧
          (r.spanningForest g).edges ⊆ r.allEdges g ∧
          (∀ d ∈ r.allEdges g, ∀ e ∈ r.allEdges g,
            (r.edge d).owner = (r.edge e).owner →
              r.weightRank d = r.weightRank e →
              (r.comesBefore g d e = true ↔
                d.index < e.index)) ∧
          ∀ e ∈ r.allEdges g,
            (e ∈ (r.spanningForest g).edges ↔
                ¬ r.IsJoinedBy
                  ((r.allEdges g).filter
                    fun d => r.comesBefore g d e)
                  e) ∧
              ((∀ d ∈ r.allEdges g,
                  r.exactWeight d = r.exactWeight e →
                    (r.comesBefore g d e = true ↔
                      d.index < e.index)) →
                (e ∈ (r.spanningForest g).edges ↔
                  ¬ r.IsJoinedBy
                    ((r.allEdges g).filter
                      fun d => r.isDeclaredBefore d e)
                    e)) := by
  intro r g hg
  have hBuilt := isBuilt_load factory options source
  have hTables :=
    (Reachable.load source (.empty factory options)).isTabled
  have hNodup := nodup_allEdges hBuilt.isForest hBuilt.isLinked hg
  refine ⟨isForestCopy_minimumSpanningTree
      (hTables.graph g).attributes,
    (r.isMinimumForest_spanningForest g).edges_subset, ?_, ?_⟩
  · intro d hd e he hOwner hRank
    exact comesBefore_iff_of_owner_eq hBuilt.isForest
      hBuilt.isLinked hg hd he hOwner hRank
  · intro e he
    exact ⟨mem_spanningForest_iff hNodup he,
      mem_spanningForest_iff_of_ties hNodup he⟩

/-
  No edge is as heavy as the first one.  Two other edges are, and
  belong to the subgraph.
-/
theorem mem_minimumSpanningTree_twoIslands :
    twoIslands.HasGraph ⟨0⟩ ∧
      (twoIslands.comesBefore ⟨0⟩ ⟨2⟩ ⟨3⟩ = true ↔ 2 < 3) ∧
      (⟨0⟩ ∈ (twoIslands.spanningForest ⟨0⟩).edges ↔
        ¬ twoIslands.IsJoinedBy
          ((twoIslands.allEdges ⟨0⟩).filter
            fun d => twoIslands.isDeclaredBefore d ⟨0⟩)
          ⟨0⟩) := by
  have hRead :
      (twoIslands.HasGraph ⟨0⟩ ∧ ⟨0⟩ ∈ twoIslands.allEdges ⟨0⟩) ∧
        (⟨2⟩ ∈ twoIslands.allEdges ⟨0⟩ ∧
          ⟨3⟩ ∈ twoIslands.allEdges ⟨0⟩ ∧
          (twoIslands.edge ⟨2⟩).owner = (twoIslands.edge ⟨3⟩).owner ∧
          twoIslands.weightRank ⟨2⟩ = twoIslands.weightRank ⟨3⟩) ∧
        ∀ d ∈ twoIslands.allEdges ⟨0⟩,
          twoIslands.exactWeight d = twoIslands.exactWeight ⟨0⟩ →
            (twoIslands.comesBefore ⟨0⟩ d ⟨0⟩ = true ↔
              d.index < 0) := by
    decide +kernel
  rcases hRead with
    ⟨⟨hGraph, hFirst⟩, ⟨hLeft, hRight, hOwner, hRank⟩, hTies⟩
  rcases mem_minimumSpanningTree_iff (F := .plain) () {}
      "graph g \x7ba--b [weight=2] b--c subgraph \x7ba--c c--c\x7d d--e [weight=-1]\x7d"
      ⟨0⟩ hGraph with
    ⟨-, -, hOrder, hEdges⟩
  exact ⟨hGraph, hOrder ⟨2⟩ hLeft ⟨3⟩ hRight hOwner hRank,
    (hEdges ⟨0⟩ hFirst).2 hTies⟩

/- The edge of the subgraph was declared before the other one. -/
def redAndBlue : Registry .plain :=
  (Registry.load (.empty () {})
    "graph \x7b subgraph \x7b a -- b [color=red] \x7d a -- b [color=blue] \x7d").registry

/- No edge is declared before the one that is left out. -/
theorem not_mem_spanningForest_redAndBlue :
    redAndBlue.HasGraph ⟨0⟩ ∧
      ⟨0⟩ ∈ redAndBlue.allEdges ⟨0⟩ ∧
      ¬ (⟨0⟩ ∈ (redAndBlue.spanningForest ⟨0⟩).edges ↔
        ¬ redAndBlue.IsJoinedBy
          ((redAndBlue.allEdges ⟨0⟩).filter
            fun d => redAndBlue.isDeclaredBefore d ⟨0⟩)
          ⟨0⟩) := by
  -- The registry is built once for all that is read off it.
  have hRead :
      (redAndBlue.HasGraph ⟨0⟩ ∧
          ⟨0⟩ ∈ redAndBlue.allEdges ⟨0⟩ ∧
          (redAndBlue.allEdges ⟨0⟩).Nodup) ∧
        (⟨1⟩ ∈ (redAndBlue.allEdges ⟨0⟩).filter
            (fun d => redAndBlue.comesBefore ⟨0⟩ d ⟨0⟩) ∧
          (redAndBlue.allEdges ⟨0⟩).filter
              (fun d => redAndBlue.isDeclaredBefore d ⟨0⟩) =
            []) ∧
        (redAndBlue.edge ⟨1⟩).tail = (redAndBlue.edge ⟨0⟩).tail ∧
        (redAndBlue.edge ⟨1⟩).head = (redAndBlue.edge ⟨0⟩).head ∧
        (redAndBlue.edge ⟨0⟩).tail ≠ (redAndBlue.edge ⟨0⟩).head := by
    decide +kernel
  rcases hRead with
    ⟨⟨hGraph, hMem, hNodup⟩, ⟨hOther, hNone⟩, hTail, hHead, hEnds⟩
  have hJoined :
      redAndBlue.IsJoinedBy
        ((redAndBlue.allEdges ⟨0⟩).filter
          fun d => redAndBlue.comesBefore ⟨0⟩ d ⟨0⟩)
        ⟨0⟩ := by
    have hConnects :
        redAndBlue.IsJoinedBy
          ((redAndBlue.allEdges ⟨0⟩).filter
            fun d => redAndBlue.comesBefore ⟨0⟩ d ⟨0⟩)
          ⟨1⟩ :=
      Connects.of_mem hOther
    unfold IsJoinedBy at hConnects ⊢
    rwa [hTail, hHead] at hConnects
  have hApart :
      ¬ redAndBlue.IsJoinedBy
        ((redAndBlue.allEdges ⟨0⟩).filter
          fun d => redAndBlue.isDeclaredBefore d ⟨0⟩)
        ⟨0⟩ := by
    rw [hNone]
    intro hConnects
    exact hEnds (Connects.eq_of_nil hConnects)
  have hOut : ⟨0⟩ ∉ (redAndBlue.spanningForest ⟨0⟩).edges := by
    intro hIn
    exact (mem_spanningForest_iff hNodup hMem).mp hIn hJoined
  exact ⟨hGraph, hMem, fun hRule => hOut (hRule.mpr hApart)⟩

end Registry

end DotLang
