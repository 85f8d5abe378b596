import DotLang.Proofs.Registry.Extent
import DotLang.Proofs.Registry.InStep
import DotLang.Proofs.Registry.ScopeRules

/-
  This file proves that the walk through the graphs inside a
  graph visits each of them once, in preorder, and that the top
  level graphs divide all graphs, nodes and edges among them.

  The walk is told once more as a loop over a stack without a
  bound, which has a result only if it ends, and the preorder as
  a relation, which follows the children as they are declared.

  Key definitions include:
    * `Registry.IsPreorderOf`
    * `Registry.tour`
    * `Registry.VisitsExtent`
    * `Registry.IsDivided`

  Key theorems include:
    * `Registry.IsForest.isPreorderOf_subgraphs`
    * `Registry.IsPreorderOf.tourFrom_eq`
    * `Registry.visitsExtent_of_operates`
-/

------------------------------------------------------------
-- Preorders
------------------------------------------------------------

namespace DotLang

namespace Registry

variable {F : Factory} {r : Registry F} {g h : GraphId}

/-
  A list of graphs in preorder: each graph is followed by the
  preorder of its children, and then by the graphs beside it.
-/
inductive IsPreorderOf
    (r : Registry F) : List GraphId → List GraphId → Prop where
| nil : IsPreorderOf r [] []
| cons
    {g : GraphId}
    {beside inside rest : List GraphId}
    (hInside : IsPreorderOf r (r.graph g).children inside)
    (hBeside : IsPreorderOf r beside rest) :
    IsPreorderOf r (g :: beside) (g :: (inside ++ rest))

theorem IsPreorderOf.unique
    {gs hs hs' : List GraphId}
    (hOrder : r.IsPreorderOf gs hs)
    (hOrder' : r.IsPreorderOf gs hs') :
    hs = hs' := by
  induction hOrder generalizing hs' with
  | nil =>
      cases hOrder'
      rfl
  | cons _ _ ihInside ihBeside =>
      cases hOrder' with
      | cons hInside hBeside =>
          rw [ihInside hInside, ihBeside hBeside]

theorem isPreorderOf_flatMap
    {gs : List GraphId}
    (hInside :
      ∀ c ∈ gs,
        r.IsPreorderOf (r.graph c).children (r.subgraphs c)) :
    r.IsPreorderOf gs (gs.flatMap r.extent) := by
  induction gs with
  | nil => exact .nil
  | cons c gs ih =>
      have hFirst := hInside c List.mem_cons_self
      have hRest :=
        ih fun d hd => hInside d (List.mem_cons_of_mem _ hd)
      exact .cons hFirst hRest

theorem IsForest.isPreorderOf_subgraphs
    (hForest : r.IsForest)
    (hg : r.HasGraph g) :
    r.IsPreorderOf (r.graph g).children (r.subgraphs g) := by
  induction g, hg using hForest.descending with
  | step g hg ih =>
      rw [hForest.subgraphs_eq_flatMap_extent hg]
      apply isPreorderOf_flatMap
      intro c hc
      exact ih c ((hForest.mem_children hg).mp hc)

------------------------------------------------------------
-- The Walk Without a Bound
------------------------------------------------------------

/-
  Take the last graph of the stack, and push its children so
  that the first of them is taken next.
-/
def tourFrom
    (r : Registry F)
    (visited stack : List GraphId) : Option (List GraphId) :=
  match stack.getLast? with
  | none => some visited
  | some g =>
      r |>.tourFrom (visited ++ [g])
        (stack.dropLast ++ (r.graph g).children.reverse)
partial_fixpoint

/- The graphs inside a graph as the loop over the stack finds them. -/
def tour (r : Registry F) (g : GraphId) : Option (List GraphId) :=
  r.tourFrom [] (r.graph g).children.reverse

theorem tourFrom_nil
    (visited : List GraphId) :
    r.tourFrom visited [] = some visited := by
  rw [tourFrom, List.getLast?_nil]

theorem tourFrom_concat
    (visited stack : List GraphId)
    (g : GraphId) :
    r.tourFrom visited (stack ++ [g]) =
      r.tourFrom (visited ++ [g])
        (stack ++ (r.graph g).children.reverse) := by
  rw [tourFrom, List.getLast?_concat]
  simp only [List.dropLast_concat]

/-
  What lies on top of the stack in reverse is visited in
  preorder before what lies below.
-/
theorem IsPreorderOf.tourFrom_eq
    {gs hs : List GraphId}
    (hOrder : r.IsPreorderOf gs hs)
    (visited stack : List GraphId) :
    r.tourFrom visited (stack ++ gs.reverse) =
      r.tourFrom (visited ++ hs) stack := by
  induction hOrder generalizing visited stack with
  | nil => rw [List.reverse_nil, List.append_nil, List.append_nil]
  | @cons g beside inside rest _ _ ihInside ihBeside =>
      calc
        r.tourFrom visited (stack ++ (g :: beside).reverse)
        _ = r.tourFrom visited
              ((stack ++ beside.reverse) ++ [g]) := by
            rw [List.reverse_cons, List.append_assoc]
        _ = r.tourFrom (visited ++ [g])
              ((stack ++ beside.reverse) ++
                (r.graph g).children.reverse) :=
            tourFrom_concat _ _ g
        _ = r.tourFrom (visited ++ [g] ++ inside)
              (stack ++ beside.reverse) := ihInside _ _
        _ = r.tourFrom (visited ++ [g] ++ inside ++ rest)
              stack := ihBeside _ _
        _ = r.tourFrom (visited ++ g :: (inside ++ rest))
              stack := by
            rw [List.append_assoc, List.append_assoc]
            rfl

theorem IsForest.tour_eq
    (hForest : r.IsForest)
    (hg : r.HasGraph g) :
    r.tour g = some (r.subgraphs g) := by
  have hOrder := hForest.isPreorderOf_subgraphs hg
  exact (hOrder.tourFrom_eq [] []).trans (tourFrom_nil _)

------------------------------------------------------------
-- Graphs Inside
------------------------------------------------------------

theorem IsForest.index_lt_of_isAncestor
    (hForest : r.IsForest)
    (hAbove : r.IsAncestor g h) :
    g.index < h.index := by
  induction hAbove with
  | single hParent => exact hForest.parent_lt hParent
  | tail _ hParent ih =>
      exact Nat.lt_trans ih (hForest.parent_lt hParent)

theorem IsForest.mem_extent_iff
    (hForest : r.IsForest)
    (hg : r.HasGraph g) :
    h ∈ r.extent g ↔ r.HasGraph h ∧ (h = g ∨ r.IsAncestor g h) := by
  rw [hForest.mem_extent hg]
  apply and_congr_right
  intro hh
  rw [hForest.mem_lineage_iff hh, eq_comm]

theorem IsForest.not_mem_subgraphs
    (hForest : r.IsForest)
    (hg : r.HasGraph g) :
    g ∉ r.subgraphs g :=
  (List.nodup_cons.mp (hForest.nodup_extent hg)).1

theorem IsForest.mem_subgraphs_iff
    (hForest : r.IsForest)
    (hg : r.HasGraph g) :
    h ∈ r.subgraphs g ↔ r.IsAncestor g h := by
  have hExtent := hForest.mem_extent_iff (h := h) hg
  rw [extent, List.mem_cons] at hExtent
  constructor
  · intro hMem
    rcases (hExtent.mp (.inr hMem)).2 with rfl | hAbove
    · exact absurd hMem (hForest.not_mem_subgraphs hg)
    · exact hAbove
  · intro hAbove
    have hLt := hForest.index_lt_of_isAncestor hAbove
    rcases hExtent.mpr ⟨hAbove.hasGraph, .inr hAbove⟩ with rfl | hMem
    · exact absurd hLt (Nat.lt_irrefl _)
    · exact hMem

------------------------------------------------------------
-- Items of Graphs
------------------------------------------------------------

section Items

variable
  {α : Type}
  {ids : List α}
  {owner : α → GraphId}
  {gs : List GraphId}

/- Items that are listed by their owners are listed where those are. -/
theorem mem_flatMap_filter_owner
    {x : α} :
    (x ∈ gs.flatMap fun g => ids.filter fun y => owner y = g) ↔
      x ∈ ids ∧ owner x ∈ gs := by
  simp only [List.mem_flatMap, List.mem_filter, decide_eq_true_eq]
  constructor
  · rintro ⟨g, hg, hx, rfl⟩
    exact ⟨hx, hg⟩
  · rintro ⟨hx, hg⟩
    exact ⟨owner x, hg, hx, rfl⟩

theorem nodup_flatMap_filter_owner
    (hIds : ids.Nodup)
    (hNodup : gs.Nodup) :
    (gs.flatMap fun g => ids.filter fun y => owner y = g).Nodup :=
  nodup_flatMap_of_owner
    (fun _ _ hx => of_decide_eq_true (List.mem_filter.mp hx).2)
    (fun _ => hIds.filter _) hNodup

end Items

------------------------------------------------------------
-- Top Level Graphs
------------------------------------------------------------

theorem IsForest.mem_flatMap_roots
    (hForest : r.IsForest) :
    g ∈ r.roots.flatMap r.extent ↔ r.HasGraph g := by
  rw [List.mem_flatMap]
  constructor
  · rintro ⟨root, hRoot, hMem⟩
    have hHas := (hForest.mem_roots.mp hRoot).1
    exact ((hForest.mem_extent hHas).mp hMem).1
  · intro hg
    rcases hForest.exists_root hg with ⟨root, hRoot, hMem⟩
    have hHas := (hForest.mem_roots.mp hRoot).1
    exact ⟨root, hRoot, (hForest.mem_extent hHas).mpr ⟨hg, hMem⟩⟩

/- No graph is inside two top level graphs. -/
theorem IsForest.eq_of_mem_extents
    (hForest : r.IsForest)
    {root root' : GraphId}
    (hRoot : root ∈ r.roots)
    (hRoot' : root' ∈ r.roots)
    (hMem : g ∈ r.extent root)
    (hMem' : g ∈ r.extent root') :
    root = root' := by
  rcases hForest.mem_roots.mp hRoot with ⟨hHas, hTop⟩
  rcases hForest.mem_roots.mp hRoot' with ⟨hHas', hTop'⟩
  rcases (hForest.mem_extent hHas).mp hMem with ⟨hg, hIn⟩
  have hIn' := ((hForest.mem_extent hHas').mp hMem').2
  rcases hForest.lineage_comparable hg hIn hIn' with hUp | hUp
  · rw [lineage_of_root hHas' hTop'] at hUp
    exact List.mem_singleton.mp hUp
  · rw [lineage_of_root hHas hTop] at hUp
    exact (List.mem_singleton.mp hUp).symm

theorem IsForest.nodup_roots
    (hForest : r.IsForest) :
    r.roots.Nodup := by
  rw [hForest.roots_eq]
  exact (nodup_graphIds r).filter _

theorem IsForest.nodup_flatMap_roots
    (hForest : r.IsForest) :
    (r.roots.flatMap r.extent).Nodup := by
  refine List.nodup_flatMap.mpr ⟨?_, ?_⟩
  · intro root hRoot
    exact hForest.nodup_extent (hForest.mem_roots.mp hRoot).1
  · refine hForest.nodup_roots.imp_of_mem ?_
    intro root root' hRoot hRoot' hNe g hMem hMem'
    exact hNe (hForest.eq_of_mem_extents hRoot hRoot' hMem hMem')

theorem IsForest.flatMap_roots_perm
    (hForest : r.IsForest) :
    (r.roots.flatMap r.extent).Perm r.graphIds := by
  apply (List.perm_ext_iff_of_nodup hForest.nodup_flatMap_roots
    (nodup_graphIds r)).mpr
  intro g
  rw [hForest.mem_flatMap_roots, mem_graphIds]

------------------------------------------------------------
-- Items in Extents
------------------------------------------------------------

section Items

variable
  {α : Type}
  {ids : List α}
  {owner : α → GraphId}
  {items : GraphId → List α}

theorem IsForest.mem_items_iff
    (hForest : r.IsForest)
    (hOwner : ∀ x ∈ ids, r.HasGraph (owner x))
    (hItems :
      ∀ g,
        items g =
          (r.extent g).flatMap fun h =>
            ids.filter fun x => owner x = h)
    (hg : r.HasGraph g)
    (x : α) :
    x ∈ items g ↔
      x ∈ ids ∧ (owner x = g ∨ r.IsAncestor g (owner x)) := by
  rw [hItems, mem_flatMap_filter_owner, hForest.mem_extent_iff hg]
  apply and_congr_right
  intro hx
  exact and_iff_right (hOwner x hx)

theorem IsForest.nodup_items
    (hForest : r.IsForest)
    (hIds : ids.Nodup)
    (hItems :
      ∀ g,
        items g =
          (r.extent g).flatMap fun h =>
            ids.filter fun x => owner x = h)
    (hg : r.HasGraph g) :
    (items g).Nodup := by
  rw [hItems]
  exact nodup_flatMap_filter_owner hIds (hForest.nodup_extent hg)

/- All items are listed once by the top level graphs together. -/
theorem IsForest.items_perm
    (hForest : r.IsForest)
    (hIds : ids.Nodup)
    (hOwner : ∀ x ∈ ids, r.HasGraph (owner x))
    (hItems :
      ∀ g,
        items g =
          (r.extent g).flatMap fun h =>
            ids.filter fun x => owner x = h) :
    (r.roots.flatMap items).Perm ids := by
  have hAll :
      r.roots.flatMap items =
        (r.roots.flatMap r.extent).flatMap fun h =>
          ids.filter fun x => owner x = h := by
    rw [List.flatMap_assoc]
    exact List.flatMap_congr fun g _ => hItems g
  rw [hAll]
  apply (List.perm_ext_iff_of_nodup
    (nodup_flatMap_filter_owner hIds hForest.nodup_flatMap_roots)
    hIds).mpr
  intro x
  rw [mem_flatMap_filter_owner, hForest.mem_flatMap_roots]
  exact and_iff_left_of_imp (hOwner x)

end Items

theorem ListsNodes.allNodes_eq
    (hNodes : r.ListsNodes)
    (g : GraphId) :
    r.allNodes g =
      (r.extent g).flatMap fun h =>
        r.nodeIds.filter fun n => (r.node n).owner = h :=
  List.flatMap_congr fun h _ => hNodes.nodes_eq h

theorem ListsEdges.allEdges_eq
    (hEdges : r.ListsEdges)
    (g : GraphId) :
    r.allEdges g =
      (r.extent g).flatMap fun h =>
        r.edgeIds.filter fun e => (r.edge e).owner = h :=
  List.flatMap_congr fun h _ => hEdges.edges_eq h

------------------------------------------------------------
-- Extents
------------------------------------------------------------

/-
  What a walk visits that starts at a graph.  Nodes and edges
  are grouped by the graphs that own them, and stand in each
  group in the order of their making.
-/
structure VisitsExtent
    (r : Registry F)
    (g : GraphId) : Prop where
  preorder :
    ∀ hs : List GraphId,
      r.IsPreorderOf (r.graph g).children hs ↔ hs = r.subgraphs g
  tour : r.tour g = some (r.subgraphs g)
  mem_subgraphs_iff :
    ∀ h : GraphId, h ∈ r.subgraphs g ↔ r.IsAncestor g h
  nodup_subgraphs : (r.subgraphs g).Nodup
  not_mem_subgraphs : g ∉ r.subgraphs g
  allNodes_eq :
    r.allNodes g =
      (g :: r.subgraphs g).flatMap fun h =>
        r.nodeIds.filter fun n => (r.node n).owner = h
  mem_allNodes_iff :
    ∀ n : NodeId,
      n ∈ r.allNodes g ↔
        r.HasNode n ∧
          ((r.node n).owner = g ∨ r.IsAncestor g (r.node n).owner)
  nodup_allNodes : (r.allNodes g).Nodup
  allEdges_eq :
    r.allEdges g =
      (g :: r.subgraphs g).flatMap fun h =>
        r.edgeIds.filter fun e => (r.edge e).owner = h
  mem_allEdges_iff :
    ∀ e : EdgeId,
      e ∈ r.allEdges g ↔
        r.HasEdge e ∧
          ((r.edge e).owner = g ∨ r.IsAncestor g (r.edge e).owner)
  nodup_allEdges : (r.allEdges g).Nodup

/-
  The extents of the top level graphs hold everything that was
  made, each graph, node and edge in one of them and there once.
-/
structure IsDivided (r : Registry F) : Prop where
  graphs : (r.roots.flatMap r.extent).Perm r.graphIds
  nodes : (r.roots.flatMap r.allNodes).Perm r.nodeIds
  edges : (r.roots.flatMap r.allEdges).Perm r.edgeIds

theorem IsConsistent.visitsExtent
    (h : r.IsConsistent)
    (hg : r.HasGraph g) :
    r.VisitsExtent g := by
  have hForest := h.isForest
  have hOrder := hForest.isPreorderOf_subgraphs hg
  have hNodes := h.listsNodes.allNodes_eq
  have hEdges := h.listsEdges.allEdges_eq
  have hNodeOwner :
      ∀ n ∈ r.nodeIds, r.HasGraph (r.node n).owner :=
    fun n hn => h.listsNodes.hasOwner (mem_nodeIds.mp hn)
  have hEdgeOwner :
      ∀ e ∈ r.edgeIds, r.HasGraph (r.edge e).owner :=
    fun e he => h.listsEdges.hasOwner (mem_edgeIds.mp he)
  constructor
  · intro hs
    refine ⟨fun hOther => hOther.unique hOrder, ?_⟩
    rintro rfl
    exact hOrder
  · exact hForest.tour_eq hg
  · intro f
    exact hForest.mem_subgraphs_iff hg
  · exact (List.nodup_cons.mp (hForest.nodup_extent hg)).2
  · exact hForest.not_mem_subgraphs hg
  · exact hNodes g
  · intro n
    rw [hForest.mem_items_iff hNodeOwner hNodes hg, mem_nodeIds]
  · exact hForest.nodup_items (nodup_nodeIds r) hNodes hg
  · exact hEdges g
  · intro e
    rw [hForest.mem_items_iff hEdgeOwner hEdges hg, mem_edgeIds]
  · exact hForest.nodup_items (nodup_edgeIds r) hEdges hg

theorem IsConsistent.isDivided
    (h : r.IsConsistent) :
    r.IsDivided where
  graphs := h.isForest.flatMap_roots_perm
  nodes :=
    h.isForest.items_perm (nodup_nodeIds r)
      (fun _ hn => h.listsNodes.hasOwner (mem_nodeIds.mp hn))
      h.listsNodes.allNodes_eq
  edges :=
    h.isForest.items_perm (nodup_edgeIds r)
      (fun _ he => h.listsEdges.hasOwner (mem_edgeIds.mp he))
      h.listsEdges.allEdges_eq

/-
  Whatever texts are read and whatever steps are taken between
  them, a walk visits all of the graphs inside a graph once, and
  the top level graphs divide the registry among them.
-/
theorem visitsExtent_of_operates
    (factory : F.State)
    (options : Options)
    (hOperates : Operates (.empty factory options) r) :
    (∀ g : GraphId, r.HasGraph g → r.VisitsExtent g) ∧
      r.IsDivided := by
  have h := hOperates.isConsistent
  exact ⟨fun g hg => h.visitsExtent hg, h.isDivided⟩

/- A subgraph is reopened, and one more is added by hand inside. -/
theorem visitsExtent_of_reopened :
    let r : Registry .plain :=
      ((empty () {}).load
        ("graph g \x7b subgraph a \x7b " ++
          "subgraph b \x7b x -- y \x7d \x7d " ++
          "subgraph c \x7b z \x7d subgraph a \x7b " ++
          "subgraph d \x7b x -- w \x7d \x7d \x7d")).registry
    let s := (r.addGraph (.new "e" false false) (some ⟨2⟩)).2
    s.VisitsExtent ⟨0⟩ ∧ s.IsDivided ∧
      s.tour ⟨0⟩ = some [⟨1⟩, ⟨2⟩, ⟨5⟩, ⟨4⟩, ⟨3⟩] := by
  intro r s
  have hParent : r.HasGraph ⟨2⟩ := by
    decide +kernel
  have hOperates :
      Operates (empty () {} : Registry .plain) s :=
    .step
      (.addGraph r _ (some ⟨2⟩) (Graph.isBlank_new _ _ _)
        fun _ hEq => Option.some.inj hEq ▸ hParent)
      (.load _ .none)
  have hg : s.HasGraph ⟨0⟩ := by
    decide +kernel
  rcases visitsExtent_of_operates (F := .plain) () {} hOperates with
    ⟨hVisits, hDivided⟩
  refine ⟨hVisits ⟨0⟩ hg, hDivided, ?_⟩
  rw [(hVisits ⟨0⟩ hg).tour]
  decide +kernel

end Registry

end DotLang
