import DotLang.Proofs.Registry.Linking
import DotLang.Registry.Dot
import Mathlib.Data.List.Flatten
import Mathlib.Data.List.Perm.Basic

/-
  This file proves what belongs to a graph: the graphs inside
  it, and the nodes and edges that these own.

  Key definitions include:
    * `Registry.postorderWithin`
    * `Registry.nodesOf`
    * `Registry.edgesOf`
    * `Registry.writtenNodes`

  Key theorems include:
    * `Registry.IsForest.children_sublist`
    * `Registry.IsForest.mem_extent_of_nested`
    * `Registry.mem_nodesOf`
-/

------------------------------------------------------------
-- Orders of Graphs
------------------------------------------------------------

namespace DotLang

namespace Registry

variable {F : Factory} {r : Registry F} {g h : GraphId}

/- The graphs down to a depth, each after those inside it. -/
def postorderWithin
    (r : Registry F) : Nat → GraphId → List GraphId
| 0, _ => []
| depth + 1, g =>
    (r.graph g).children.flatMap (r.postorderWithin depth) ++ [g]

theorem postorderWithin_perm
    (r : Registry F)
    (depth : Nat)
    (g : GraphId) :
    (r.postorderWithin depth g).Perm (r.preorderWithin depth g) := by
  induction depth generalizing g with
  | zero => exact List.Perm.refl _
  | succ depth ih =>
      have hChildren :=
        List.Perm.flatMap_left (r.graph g).children
          fun c _ => ih c
      exact (List.perm_append_singleton _ _).trans
        (hChildren.cons g)

theorem IsForest.postorder_perm
    (hForest : r.IsForest)
    (hg : r.HasGraph g) :
    (r.postorderWithin r.graphs.size g).Perm (r.extent g) := by
  rw [hForest.extent_eq_preorder hg]
  exact r.postorderWithin_perm _ g

/- Enough depth is as good as any. -/
theorem IsForest.preorder_eq_extent
    (hForest : r.IsForest)
    (hg : r.HasGraph g)
    {depth : Nat}
    (hDepth : r.graphs.size ≤ g.index + depth) :
    r.preorderWithin depth g = r.extent g := by
  rw [hForest.extent_eq_preorder hg]
  exact hForest.preorderWithin_stable hg _ _ hDepth
    (Nat.le_add_left _ _)

/- Children stand in a graph's extent in their order. -/
theorem IsForest.children_sublist
    (hForest : r.IsForest)
    (depth : Nat)
    (hg : r.HasGraph g)
    (hDepth : r.graphs.size ≤ g.index + depth)
    (hMem : h ∈ r.preorderWithin depth g) :
    (r.graph h).children.Sublist (r.preorderWithin depth g) := by
  induction depth generalizing g with
  | zero => cases hMem
  | succ depth ih =>
      have hInside :
          ∀ c ∈ (r.graph g).children,
            r.HasGraph c ∧ r.graphs.size ≤ c.index + depth := by
        intro c hc
        have hParent := (hForest.mem_children hg).mp hc
        have hLt := hForest.parent_lt hParent
        exact ⟨hasGraph_of_parent hParent, by omega⟩
      rcases List.mem_cons.mp hMem with rfl | hMem
      · have hHeads :
            ∀ c ∈ (r.graph h).children,
              [c].Sublist (r.preorderWithin depth c) := by
          intro c hc
          rcases hInside c hc with ⟨hGraph, hSize⟩
          apply List.singleton_sublist.mpr
          have hPos : c.index < r.graphs.size := hGraph
          rcases depth with _ | depth
          · omega
          · exact List.mem_cons_self
        have hAll :=
          List.Sublist.flatMap_right (r.graph h).children hHeads
        rw [List.flatMap_singleton'] at hAll
        exact hAll.cons h
      · rcases List.mem_flatMap.mp hMem with ⟨c, hc, hMem⟩
        have hBelow := ih (hInside c hc).1 (hInside c hc).2 hMem
        have hWithin :=
          (List.singleton_sublist.mpr hc).flatMap
            (r.preorderWithin depth)
        rw [List.flatMap_singleton] at hWithin
        exact (hBelow.trans hWithin).cons g

------------------------------------------------------------
-- Graphs of a Top Level Graph
------------------------------------------------------------

namespace IsForest

variable {root : GraphId}

/- All graphs around one of a top level graph belong to it. -/
theorem mem_extent_of_lineage
    (hForest : r.IsForest)
    (hRoot : root ∈ r.roots)
    (hg : g ∈ r.extent root)
    (hMem : h ∈ r.lineage g) :
    h ∈ r.extent root := by
  rcases hForest.mem_roots.mp hRoot with ⟨hGraph, hTop⟩
  rcases (hForest.mem_extent hGraph).mp hg with ⟨hg, hIn⟩
  have hh := hForest.hasGraph_of_mem_lineage hg hMem
  apply (hForest.mem_extent hGraph).mpr
  refine ⟨hh, ?_⟩
  rcases hForest.lineage_comparable hg hMem hIn with hUp | hDown
  · rw [lineage_of_root hGraph hTop, List.mem_singleton] at hUp
    rw [hUp]
    exact hForest.mem_lineage_self hGraph
  · exact hDown

theorem parent_mem_extent
    (hForest : r.IsForest)
    (hRoot : root ∈ r.roots)
    (hg : g ∈ r.extent root)
    (hParent : (r.graph g).parent = some h) :
    h ∈ r.extent root := by
  apply hForest.mem_extent_of_lineage hRoot hg
  rw [hForest.lineage_of_parent hParent]
  exact List.mem_cons_of_mem _
    (hForest.mem_lineage_self (hForest.hasGraph_parent hParent))

theorem mem_extent_of_nested
    (hForest : r.IsForest)
    (hRoot : root ∈ r.roots)
    (hg : g ∈ r.extent root)
    (hh : r.HasGraph h)
    (hNested : r.AreNested h g) :
    h ∈ r.extent root := by
  rcases hNested with hOut | hIn
  · exact hForest.mem_extent_of_lineage hRoot hg hOut
  · have hGraph := (hForest.mem_roots.mp hRoot).1
    apply (hForest.mem_extent hGraph).mpr
    exact ⟨hh, hForest.lineage_subset hh hIn
      ((hForest.mem_extent hGraph).mp hg).2⟩

/- What children share with their parents is the same everywhere. -/
theorem view_eq_root
    {β : Type}
    {view : Graph → β}
    (hForest : r.IsForest)
    (hRoot : root ∈ r.roots)
    (hView :
      ∀ {c p : GraphId},
        (r.graph c).parent = some p →
          view (r.graph c) = view (r.graph p))
    (hg : g ∈ r.extent root) :
    view (r.graph g) = view (r.graph root) := by
  rcases hForest.mem_roots.mp hRoot with ⟨hGraph, hTop⟩
  have hh := ((hForest.mem_extent hGraph).mp hg).1
  induction g, hh using hForest.ascending with
  | step g hh ih =>
      cases hParent : (r.graph g).parent with
      | none =>
          have hIn := ((hForest.mem_extent hGraph).mp hg).2
          rw [lineage_of_root hh hParent, List.mem_singleton] at hIn
          rw [hIn]
      | some parent =>
          rw [hView hParent]
          exact ih parent hParent
            (hForest.parent_mem_extent hRoot hg hParent)

end IsForest

------------------------------------------------------------
-- Nodes and Edges
------------------------------------------------------------

/- The nodes that graphs own, one graph after the other. -/
def nodesOf (r : Registry F) (gs : List GraphId) : List NodeId :=
  gs.flatMap fun g => (r.graph g).nodes

/- The edges that graphs own, one graph after the other. -/
def edgesOf (r : Registry F) (gs : List GraphId) : List EdgeId :=
  gs.flatMap fun g => (r.graph g).edges

theorem nodesOf_append
    (r : Registry F)
    (gs hs : List GraphId) :
    r.nodesOf (gs ++ hs) = r.nodesOf gs ++ r.nodesOf hs :=
  List.flatMap_append

theorem edgesOf_append
    (r : Registry F)
    (gs hs : List GraphId) :
    r.edgesOf (gs ++ hs) = r.edgesOf gs ++ r.edgesOf hs :=
  List.flatMap_append

theorem nodes_sublist_nodesOf
    {gs : List GraphId}
    (hg : g ∈ gs) :
    (r.graph g).nodes.Sublist (r.nodesOf gs) := by
  have hOne := (List.singleton_sublist.mpr hg).flatMap
    fun g => (r.graph g).nodes
  rwa [List.flatMap_singleton] at hOne

theorem edges_sublist_edgesOf
    {gs : List GraphId}
    (hg : g ∈ gs) :
    (r.graph g).edges.Sublist (r.edgesOf gs) := by
  have hOne := (List.singleton_sublist.mpr hg).flatMap
    fun g => (r.graph g).edges
  rwa [List.flatMap_singleton] at hOne

theorem mem_nodesOf
    (hScoped : r.IsScoped)
    {gs : List GraphId}
    {n : NodeId} :
    n ∈ r.nodesOf gs ↔ r.HasNode n ∧ (r.node n).owner ∈ gs := by
  unfold nodesOf
  simp only [List.mem_flatMap, hScoped.mem_nodes]
  constructor
  · rintro ⟨g, hg, hn, rfl⟩
    exact ⟨hn, hg⟩
  · rintro ⟨hn, hg⟩
    exact ⟨_, hg, hn, rfl⟩

theorem mem_edgesOf
    (hLinked : r.IsLinked)
    {gs : List GraphId}
    {e : EdgeId} :
    e ∈ r.edgesOf gs ↔ r.HasEdge e ∧ (r.edge e).owner ∈ gs := by
  unfold edgesOf
  simp only [List.mem_flatMap, hLinked.mem_edges]
  constructor
  · rintro ⟨g, hg, he, rfl⟩
    exact ⟨he, hg⟩
  · rintro ⟨he, hg⟩
    exact ⟨_, hg, he, rfl⟩

/- Items that belong to different graphs are different. -/
theorem nodup_flatMap_of_owner
    {α : Type}
    {items : GraphId → List α}
    {owner : α → GraphId}
    (hOwner : ∀ g, ∀ x ∈ items g, owner x = g)
    (hItems : ∀ g, (items g).Nodup)
    {gs : List GraphId}
    (hNodup : gs.Nodup) :
    (gs.flatMap items).Nodup := by
  apply List.nodup_flatMap.mpr
  refine ⟨fun g _ => hItems g, ?_⟩
  refine hNodup.imp ?_
  intro g h hNe x hx hx'
  exact hNe ((hOwner g x hx).symm.trans (hOwner h x hx'))

theorem nodup_nodesOf
    (hScoped : r.IsScoped)
    {gs : List GraphId}
    (hNodup : gs.Nodup) :
    (r.nodesOf gs).Nodup :=
  nodup_flatMap_of_owner
    (fun _ _ hn => (hScoped.mem_nodes.mp hn).2) hScoped.nodup_nodes
    hNodup

theorem nodup_edgesOf
    (hLinked : r.IsLinked)
    {gs : List GraphId}
    (hNodup : gs.Nodup) :
    (r.edgesOf gs).Nodup :=
  nodup_flatMap_of_owner
    (fun _ _ he => (hLinked.mem_edges.mp he).2) hLinked.nodup_edges
    hNodup

------------------------------------------------------------
-- Nodes in the Text of a Graph
------------------------------------------------------------

/- The nodes that the text of a graph mentions by themselves. -/
def writtenNodes (r : Registry F) (g : GraphId) : List NodeId :=
  r.visibleNodes g ++ r.nestedNodes g

theorem visibleNodes_eq
    (hScoped : r.IsScoped)
    (g : GraphId) :
    r.visibleNodes g =
      (r.graph g).members.filter fun n =>
        (r.lineage g).contains (r.node n).owner := by
  have hMembers :
      ∀ n ∈ (r.graph g).nodes, (r.graph g).isMember n = true := by
    intro n hn
    rw [← hScoped.filter_members] at hn
    exact hScoped.isIndexed.isMember_iff.mpr (List.mem_filter.mp hn).1
  have hNone :
      ((r.graph g).nodes.filter fun n => !(r.graph g).isMember n) =
        [] := by
    apply List.filter_eq_nil_iff.mpr
    intro n hn
    simp [hMembers n hn]
  rw [visibleNodes, hNone, List.append_nil]

theorem writtenNodes_perm
    (hScoped : r.IsScoped)
    (g : GraphId) :
    (r.writtenNodes g).Perm (r.graph g).members := by
  rw [writtenNodes, visibleNodes_eq hScoped, nestedNodes]
  exact List.filter_append_perm _ _

theorem mem_visibleNodes
    (hScoped : r.IsScoped)
    {n : NodeId} :
    n ∈ r.visibleNodes g ↔
      n ∈ (r.graph g).members ∧ (r.node n).owner ∈ r.lineage g := by
  rw [visibleNodes_eq hScoped, List.mem_filter,
    List.contains_iff_mem]

/- A graph owns the nodes that it shows first of all graphs. -/
theorem filter_visibleNodes
    (hForest : r.IsForest)
    (hScoped : r.IsScoped)
    (hg : r.HasGraph g) :
    (r.visibleNodes g).filter (fun n => (r.node n).owner = g) =
      (r.graph g).nodes := by
  rw [visibleNodes_eq hScoped, List.filter_filter,
    ← hScoped.filter_members]
  apply List.filter_congr
  intro n _
  have hSelf := hForest.mem_lineage_self hg
  by_cases hOwner : (r.node n).owner = g
  · simpa [hOwner] using hSelf
  · simp [hOwner]

end Registry

end DotLang
