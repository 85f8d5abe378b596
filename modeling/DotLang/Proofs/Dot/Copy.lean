import DotLang.Proofs.Dot.Numbering
import DotLang.Proofs.Registry.Built
import Mathlib.Data.List.Find

/-
  This file says what a registry looks like while the text of a
  graph makes the entities of the graph again.

  What the registry holds are copies under new handles.  Its
  lists of children, nodes and edges follow from the invariants
  of all registries, since handles are given out in order.

  Key definitions include:
    * `Graph.outline`
    * `Node.outline`
    * `Numbering.IsCopying`

  Key theorems include:
    * `Numbering.IsCopying.lineage_eq`
    * `Numbering.IsCopying.children_eq`
    * `Numbering.IsCopying.nodes_eq`
    * `Numbering.IsCopying.edges_eq`
    * `Numbering.IsCopying.extent_eq`
-/

------------------------------------------------------------
-- Copies
------------------------------------------------------------

namespace DotLang

/- A graph without all that its statements put into it. -/
def Graph.outline (graph : Graph) : Graph :=
  { graph with
    nodes := []
    nodeIndex := ∅
    members := []
    memberSet := ∅
    edges := []
    children := []
    attributes := .empty }

/- A node without the edges at it. -/
def Node.outline (node : Node) : Node :=
  { node with outEdges := [], inEdges := [] }

open Registry

namespace Numbering

/- The copy of a graph, as it is made. -/
def copyGraph (φ : Numbering) (graph : Graph) : Graph where
  name := graph.name
  directed := graph.directed
  strict := graph.strict
  parent := graph.parent.map φ.graph

/- The copy of a node, as it is made. -/
def copyNode (φ : Numbering) (node : Node) : Node where
  name := node.name
  owner := φ.graph node.owner
  attributes := node.attributes

/- The copy of an edge. -/
def copyEdge (φ : Numbering) (edge : Edge) : Edge where
  tail := φ.node edge.tail
  head := φ.node edge.head
  directed := edge.directed
  owner := φ.graph edge.owner
  attributes := edge.attributes

variable {F H : Factory} {IsGood : Value → Prop}

/-
  All that a registry holds are copies of entities of a graph.
  The attributes and members of its graphs are left open.
-/
structure IsCopying
    (φ : Numbering)
    (r : Registry F)
    (root : GraphId)
    (s : Registry H) : Prop where
  isBuilt : s.IsBuilt fun _ => True
  exists_graph :
    ∀ {x}, s.HasGraph x → ∃ g ∈ r.extent root, φ.graph g = x
  exists_node :
    ∀ {x}, s.HasNode x → ∃ n ∈ r.allNodes root, φ.node n = x
  exists_edge :
    ∀ {x}, s.HasEdge x → ∃ e ∈ r.madeEdges root, φ.edge e = x
  graph :
    ∀ {g},
      g ∈ r.extent root →
        s.HasGraph (φ.graph g) →
        (s.graph (φ.graph g)).outline = φ.copyGraph (r.graph g)
  node :
    ∀ {n},
      n ∈ r.allNodes root →
        s.HasNode (φ.node n) →
        (s.node (φ.node n)).outline = φ.copyNode (r.node n)
  edge :
    ∀ {e},
      e ∈ r.madeEdges root →
        s.HasEdge (φ.edge e) →
        s.edge (φ.edge e) = φ.copyEdge (r.edge e)

/-
  A top level graph of a registry that statements made, and new
  handles for its entities.
-/
structure IsPlan
    (φ : Numbering)
    (IsGood : Value → Prop)
    (r : Registry F)
    (root : GraphId) : Prop where
  isBuilt : r.IsBuilt IsGood
  isRoot : root ∈ r.roots
  isNumbering : φ.IsNumbering r root

namespace IsPlan

variable
  {φ : Numbering}
  {r : Registry F}
  {root g h : GraphId}
  {m n : NodeId}
  {d e : EdgeId}

theorem hasRoot
    (hPlan : φ.IsPlan IsGood r root) :
    r.HasGraph root :=
  (hPlan.isBuilt.isForest.mem_roots.mp hPlan.isRoot).1

theorem hasGraph
    (hPlan : φ.IsPlan IsGood r root)
    (hg : g ∈ r.extent root) :
    r.HasGraph g :=
  ((hPlan.isBuilt.isForest.mem_extent hPlan.hasRoot).mp hg).1

theorem mem_nodes
    (hPlan : φ.IsPlan IsGood r root) :
    n ∈ r.allNodes root ↔
      r.HasNode n ∧ (r.node n).owner ∈ r.extent root :=
  mem_nodesOf hPlan.isBuilt.isScoped

theorem mem_edges
    (hPlan : φ.IsPlan IsGood r root) :
    e ∈ r.madeEdges root ↔
      r.HasEdge e ∧ (r.edge e).owner ∈ r.extent root := by
  have hPerm := hPlan.isBuilt.isForest.postorder_perm hPlan.hasRoot
  rw [madeEdges, mem_edgesOf hPlan.isBuilt.isLinked, hPerm.mem_iff]

theorem graph_inj
    (hPlan : φ.IsPlan IsGood r root)
    (hg : g ∈ r.extent root)
    (hh : h ∈ r.extent root)
    (hEq : φ.graph g = φ.graph h) :
    g = h :=
  hPlan.isNumbering.graphs.inj hg hh (congrArg GraphId.index hEq)

theorem node_inj
    (hPlan : φ.IsPlan IsGood r root)
    (hm : m ∈ r.allNodes root)
    (hn : n ∈ r.allNodes root)
    (hEq : φ.node m = φ.node n) :
    m = n :=
  hPlan.isNumbering.nodes.inj hm hn (congrArg NodeId.index hEq)

theorem edge_inj
    (hPlan : φ.IsPlan IsGood r root)
    (hd : d ∈ r.madeEdges root)
    (he : e ∈ r.madeEdges root)
    (hEq : φ.edge d = φ.edge e) :
    d = e :=
  hPlan.isNumbering.edges.inj hd he (congrArg EdgeId.index hEq)

/- A member of a graph belongs to the same top level graph. -/
theorem mem_nodes_of_member
    (hPlan : φ.IsPlan IsGood r root)
    (hg : g ∈ r.extent root)
    (hn : n ∈ (r.graph g).members) :
    n ∈ r.allNodes root := by
  have hScoped := hPlan.isBuilt.isScoped
  have hNode := hScoped.hasNode hn
  exact hPlan.mem_nodes.mpr
    ⟨hNode, hPlan.isBuilt.isForest.mem_extent_of_nested hPlan.isRoot
      hg (hScoped.hasOwner hNode) (hScoped.nested hn)⟩

end IsPlan

------------------------------------------------------------
-- Graphs of a Copy
------------------------------------------------------------

/- Lists in the same order with the same items are equal. -/
theorem eq_map_of_pairwise
    {α β : Type}
    (index : β → Nat)
    {f : α → β}
    {items : List α}
    {others : List β}
    (hItems : (items.map fun x => index (f x)).Pairwise (· < ·))
    (hOthers : (others.map index).Pairwise (· < ·))
    (hMem : ∀ y, y ∈ others ↔ ∃ x ∈ items, f x = y) :
    others = items.map f := by
  have hMapped :
      ((items.map f).map index).Pairwise (· < ·) := by
    rw [List.map_map]
    exact hItems
  have hNodup :
      ∀ {l : List β}, (l.map index).Pairwise (· < ·) → l.Nodup :=
    fun hLt => List.Nodup.of_map index (hLt.imp Nat.ne_of_lt)
  have hPerm : others.Perm (items.map f) := by
    apply (List.perm_ext_iff_of_nodup (hNodup hOthers)
      (hNodup hMapped)).mpr
    intro y
    rw [hMem, List.mem_map]
  have hLt := List.pairwise_map.mp hOthers
  have hLt' := List.pairwise_map.mp hMapped
  refine List.Perm.eq_of_pairwise ?_ hLt hLt' hPerm
  intro x y _ _ hBefore hBehind
  omega

/- Handles are listed in the order in which they are given out. -/
theorem pairwise_ids
    {α : Type}
    {make : Nat → α}
    {index : α → Nat}
    (hIndex : ∀ i, index (make i) = i)
    (n : Nat)
    (keep : α → Bool) :
    ((((List.range n).map make).filter keep).map index).Pairwise
      (· < ·) := by
  have hAll : (((List.range n).map make).map index) = List.range n := by
    rw [List.map_map]
    exact List.map_id'' hIndex _
  have hSub :
      ((((List.range n).map make).filter keep).map index).Sublist
        (((List.range n).map make).map index) :=
    List.filter_sublist.map index
  rw [hAll] at hSub
  exact List.pairwise_lt_range.sublist hSub

namespace IsCopying

variable
  {φ : Numbering}
  {r : Registry F}
  {s : Registry H}
  {root g h : GraphId}
  {m n : NodeId}
  {e : EdgeId}

/- What an outline shows of a copy is as it was made. -/
theorem view_eq
    {β : Type}
    (view : Graph → β)
    (hView : ∀ graph : Graph, view graph.outline = view graph)
    (hCopy : φ.IsCopying r root s)
    (hg : g ∈ r.extent root)
    (hs : s.HasGraph (φ.graph g)) :
    view (s.graph (φ.graph g)) = view (φ.copyGraph (r.graph g)) := by
  rw [← hCopy.graph hg hs, hView]

theorem parent_eq
    (hCopy : φ.IsCopying r root s)
    (hg : g ∈ r.extent root)
    (hs : s.HasGraph (φ.graph g)) :
    (s.graph (φ.graph g)).parent =
      (r.graph g).parent.map φ.graph :=
  view_eq Graph.parent (fun _ => rfl) hCopy hg hs

theorem parent_iff
    (hCopy : φ.IsCopying r root s)
    (hPlan : φ.IsPlan IsGood r root)
    (hg : g ∈ r.extent root)
    (hh : h ∈ r.extent root)
    (hs : s.HasGraph (φ.graph g)) :
    (s.graph (φ.graph g)).parent = some (φ.graph h) ↔
      (r.graph g).parent = some h := by
  rw [hCopy.parent_eq hg hs, Option.map_eq_some_iff]
  constructor
  · rintro ⟨p, hParent, hEq⟩
    have hp := hPlan.isBuilt.isForest.parent_mem_extent
      hPlan.isRoot hg hParent
    rw [hParent, hPlan.graph_inj hp hh hEq]
  · intro hParent
    exact ⟨h, hParent, rfl⟩

/- The graphs around a copy are those around the original. -/
theorem lineage_eq
    (hCopy : φ.IsCopying r root s)
    (hPlan : φ.IsPlan IsGood r root)
    (hg : g ∈ r.extent root)
    (hs : s.HasGraph (φ.graph g)) :
    s.lineage (φ.graph g) = (r.lineage g).map φ.graph := by
  have hForest := hPlan.isBuilt.isForest
  have hForest' := hCopy.isBuilt.isForest
  have hGraph := hPlan.hasGraph hg
  induction g, hGraph using hForest.ascending with
  | step g hGraph ih =>
      cases hParent : (r.graph g).parent with
      | none =>
          have hTop : (s.graph (φ.graph g)).parent = none := by
            rw [hCopy.parent_eq hg hs, hParent]
            rfl
          rw [IsForest.lineage_of_root hGraph hParent,
            IsForest.lineage_of_root hs hTop]
          rfl
      | some parent =>
          have hp := hForest.parent_mem_extent hPlan.isRoot hg
            hParent
          have hUp := (hCopy.parent_iff hPlan hg hp hs).mpr hParent
          rw [hForest.lineage_of_parent hParent,
            hForest'.lineage_of_parent hUp,
            ih parent hParent hp (hForest'.hasGraph_parent hUp)]
          rfl

theorem mem_lineage
    (hCopy : φ.IsCopying r root s)
    (hPlan : φ.IsPlan IsGood r root)
    (hg : g ∈ r.extent root)
    (hh : h ∈ r.extent root)
    (hs : s.HasGraph (φ.graph g)) :
    φ.graph h ∈ s.lineage (φ.graph g) ↔ h ∈ r.lineage g := by
  rw [hCopy.lineage_eq hPlan hg hs, List.mem_map]
  constructor
  · rintro ⟨f, hf, hEq⟩
    have hMem := hPlan.isBuilt.isForest.mem_extent_of_lineage
      hPlan.isRoot hg hf
    rwa [← hPlan.graph_inj hMem hh hEq]
  · intro hIn
    exact ⟨h, hIn, rfl⟩

theorem areNested_iff
    (hCopy : φ.IsCopying r root s)
    (hPlan : φ.IsPlan IsGood r root)
    (hg : g ∈ r.extent root)
    (hh : h ∈ r.extent root)
    (hs : s.HasGraph (φ.graph g))
    (hs' : s.HasGraph (φ.graph h)) :
    s.AreNested (φ.graph g) (φ.graph h) ↔ r.AreNested g h :=
  or_congr (hCopy.mem_lineage hPlan hh hg hs')
    (hCopy.mem_lineage hPlan hg hh hs)

/- The children of a copy, once they are all made. -/
theorem children_eq
    (hCopy : φ.IsCopying r root s)
    (hPlan : φ.IsPlan IsGood r root)
    (hg : g ∈ r.extent root)
    (hs : s.HasGraph (φ.graph g))
    (hAll : ∀ c ∈ (r.graph g).children, s.HasGraph (φ.graph c)) :
    (s.graph (φ.graph g)).children =
      (r.graph g).children.map φ.graph := by
  have hForest := hPlan.isBuilt.isForest
  have hForest' := hCopy.isBuilt.isForest
  have hSub := hForest.children_sublist r.graphs.size hPlan.hasRoot
    (Nat.le_add_left _ _)
    (by rwa [hForest.extent_eq_preorder hPlan.hasRoot] at hg)
  rw [← hForest.extent_eq_preorder hPlan.hasRoot] at hSub
  apply eq_map_of_pairwise GraphId.index
  · exact hPlan.isNumbering.graphs.pairwise hSub
  · rw [hForest'.children_eq hs]
    exact pairwise_ids (fun _ => rfl) _ _
  · intro x
    rw [hForest'.mem_children hs]
    constructor
    · intro hParent
      rcases hCopy.exists_graph (hasGraph_of_parent hParent) with
        ⟨c, hc, rfl⟩
      have hUp := (hCopy.parent_iff hPlan hc hg
        (hasGraph_of_parent hParent)).mp hParent
      exact ⟨c, (hForest.mem_children (hPlan.hasGraph hg)).mpr hUp,
        rfl⟩
    · rintro ⟨c, hc, rfl⟩
      have hUp := (hForest.mem_children (hPlan.hasGraph hg)).mp hc
      exact (hCopy.parent_iff hPlan (hSub.subset hc) hg
        (hAll c hc)).mpr hUp

/- The graphs inside a copy, once they are all made. -/
theorem extent_eq
    (hCopy : φ.IsCopying r root s)
    (hPlan : φ.IsPlan IsGood r root)
    (hg : g ∈ r.extent root)
    (hAll : ∀ h ∈ r.extent g, s.HasGraph (φ.graph h)) :
    s.extent (φ.graph g) = (r.extent g).map φ.graph := by
  have hForest := hPlan.isBuilt.isForest
  have hGraph := hPlan.hasGraph hg
  induction g, hGraph using hForest.descending with
  | step g hGraph ih =>
      have hSelf : g ∈ r.extent g := List.mem_cons_self
      have hInside :
          ∀ c ∈ (r.graph g).children, r.extent c ⊆ r.extent g := by
        intro c hc h hh
        rw [hForest.extent_eq hGraph]
        exact List.mem_cons_of_mem _
          (List.mem_flatMap.mpr ⟨c, hc, hh⟩)
      have hChild :
          ∀ c ∈ (r.graph g).children, c ∈ r.extent g :=
        fun c hc => hInside c hc List.mem_cons_self
      have hs := hAll g hSelf
      rw [hCopy.isBuilt.isForest.extent_eq hs,
        hForest.extent_eq hGraph,
        hCopy.children_eq hPlan hg hs fun c hc =>
          hAll c (hChild c hc),
        List.flatMap_map, List.map_cons, List.map_flatMap]
      refine congrArg (φ.graph g :: ·) (List.flatMap_congr ?_)
      intro c hc
      exact ih c ((hForest.mem_children hGraph).mp hc)
        (hForest.extent_subset hPlan.hasRoot hg (hChild c hc))
        fun h hh => hAll h (hInside c hc hh)

------------------------------------------------------------
-- Nodes and Edges of a Copy
------------------------------------------------------------

theorem name_eq
    (hCopy : φ.IsCopying r root s)
    (hn : n ∈ r.allNodes root)
    (hs : s.HasNode (φ.node n)) :
    (s.node (φ.node n)).name = (r.node n).name := by
  have hView := congrArg Node.name (hCopy.node hn hs)
  exact hView

theorem owner_eq
    (hCopy : φ.IsCopying r root s)
    (hn : n ∈ r.allNodes root)
    (hs : s.HasNode (φ.node n)) :
    (s.node (φ.node n)).owner = φ.graph (r.node n).owner := by
  have hView := congrArg Node.owner (hCopy.node hn hs)
  exact hView

/- A copy owns the copies of nodes that the original owns. -/
theorem mem_nodes
    (hCopy : φ.IsCopying r root s)
    (hPlan : φ.IsPlan IsGood r root)
    (hg : g ∈ r.extent root)
    {x : NodeId} :
    x ∈ (s.graph (φ.graph g)).nodes ↔
      ∃ n ∈ (r.graph g).nodes, s.HasNode x ∧ φ.node n = x := by
  have hScoped := hPlan.isBuilt.isScoped
  rw [hCopy.isBuilt.isScoped.mem_nodes]
  constructor
  · rintro ⟨hx, hOwner⟩
    rcases hCopy.exists_node hx with ⟨n, hn, rfl⟩
    rw [hCopy.owner_eq hn hx] at hOwner
    rcases hPlan.mem_nodes.mp hn with ⟨hNode, hIn⟩
    exact ⟨n, hScoped.mem_nodes.mpr
      ⟨hNode, hPlan.graph_inj hIn hg hOwner⟩, hx, rfl⟩
  · rintro ⟨n, hn, hx, rfl⟩
    rcases hScoped.mem_nodes.mp hn with ⟨hNode, rfl⟩
    exact ⟨hx, hCopy.owner_eq (hPlan.mem_nodes.mpr ⟨hNode, hg⟩) hx⟩

/- The nodes of a copy, once they are all made. -/
theorem nodes_eq
    (hCopy : φ.IsCopying r root s)
    (hPlan : φ.IsPlan IsGood r root)
    (hg : g ∈ r.extent root)
    (hAll : ∀ n ∈ (r.graph g).nodes, s.HasNode (φ.node n)) :
    (s.graph (φ.graph g)).nodes =
      (r.graph g).nodes.map φ.node := by
  apply eq_map_of_pairwise NodeId.index
  · exact hPlan.isNumbering.nodes.pairwise (nodes_sublist_nodesOf hg)
  · rw [hCopy.isBuilt.isScoped.nodes_eq]
    exact pairwise_ids (fun _ => rfl) _ _
  · intro x
    rw [hCopy.mem_nodes hPlan hg]
    constructor
    · rintro ⟨n, hn, -, hEq⟩
      exact ⟨n, hn, hEq⟩
    · rintro ⟨n, hn, rfl⟩
      exact ⟨n, hn, hAll n hn, rfl⟩

/- The edges of a copy, once they are all made. -/
theorem edges_eq
    (hCopy : φ.IsCopying r root s)
    (hPlan : φ.IsPlan IsGood r root)
    (hg : g ∈ r.extent root)
    (hAll : ∀ e ∈ (r.graph g).edges, s.HasEdge (φ.edge e)) :
    (s.graph (φ.graph g)).edges =
      (r.graph g).edges.map φ.edge := by
  have hLinked := hPlan.isBuilt.isLinked
  have hPerm := hPlan.isBuilt.isForest.postorder_perm hPlan.hasRoot
  have hOwner :
      ∀ {e}, e ∈ r.madeEdges root → s.HasEdge (φ.edge e) →
        (s.edge (φ.edge e)).owner = φ.graph (r.edge e).owner :=
    fun he hs => congrArg Edge.owner (hCopy.edge he hs)
  apply eq_map_of_pairwise EdgeId.index
  · exact hPlan.isNumbering.edges.pairwise
      (edges_sublist_edgesOf (hPerm.mem_iff.mpr hg))
  · rw [hCopy.isBuilt.isLinked.edges_eq]
    exact pairwise_ids (fun _ => rfl) _ _
  · intro x
    rw [hCopy.isBuilt.isLinked.mem_edges]
    constructor
    · rintro ⟨hx, hEq⟩
      rcases hCopy.exists_edge hx with ⟨e, he, rfl⟩
      rw [hOwner he hx] at hEq
      rcases hPlan.mem_edges.mp he with ⟨hEdge, hIn⟩
      exact ⟨e, hLinked.mem_edges.mpr
        ⟨hEdge, hPlan.graph_inj hIn hg hEq⟩, rfl⟩
    · rintro ⟨e, he, rfl⟩
      have hs := hAll e he
      rcases hLinked.mem_edges.mp he with ⟨hEdge, rfl⟩
      exact ⟨hs, hOwner (hPlan.mem_edges.mpr ⟨hEdge, hg⟩) hs⟩

------------------------------------------------------------
-- Names in a Copy
------------------------------------------------------------

theorem localNode?_eq
    (hCopy : φ.IsCopying r root s)
    (hPlan : φ.IsPlan IsGood r root)
    (hg : g ∈ r.extent root)
    (hAll : ∀ n ∈ (r.graph g).nodes, s.HasNode (φ.node n))
    (name : String) :
    s.localNode? (φ.graph g) name =
      (r.localNode? g name).map φ.node := by
  rw [hCopy.isBuilt.isIndexed.localNode?_eq,
    hPlan.isBuilt.isIndexed.localNode?_eq,
    hCopy.nodes_eq hPlan hg hAll, ← List.map_reverse,
    List.find?_map]
  congr 1
  apply List.find?_congr
  intro n hn
  have hNode := List.mem_reverse.mp hn
  rcases hPlan.isBuilt.isScoped.mem_nodes.mp hNode with
    ⟨hHas, rfl⟩
  rw [Function.comp_apply, hCopy.name_eq
    (hPlan.mem_nodes.mpr ⟨hHas, hg⟩) (hAll n hNode)]

theorem findSome?_congr
    {α β : Type}
    {f f' : α → Option β}
    {items : List α}
    (h : ∀ x ∈ items, f x = f' x) :
    items.findSome? f = items.findSome? f' := by
  induction items with
  | nil => rfl
  | cons x items ih =>
      rw [List.findSome?_cons, List.findSome?_cons,
        h x List.mem_cons_self,
        ih fun y hy => h y (List.mem_cons_of_mem _ hy)]

/-
  A name stands for the same node in a copy, once all nodes are
  made that it might stand for.
-/
theorem resolveNode?_eq
    (hCopy : φ.IsCopying r root s)
    (hPlan : φ.IsPlan IsGood r root)
    (hg : g ∈ r.extent root)
    (hGraphs : ∀ h ∈ r.extent g, s.HasGraph (φ.graph h))
    (hNodes :
      ∀ h ∈ r.lineage g ++ r.subgraphs g,
        ∀ n ∈ (r.graph h).nodes, s.HasNode (φ.node n))
    (name : String) :
    s.resolveNode? (φ.graph g) name =
      (r.resolveNode? g name).map φ.node := by
  have hForest := hPlan.isBuilt.isForest
  have hSubgraphs :
      s.subgraphs (φ.graph g) = (r.subgraphs g).map φ.graph :=
    List.tail_eq_of_cons_eq (hCopy.extent_eq hPlan hg hGraphs)
  have hIn :
      ∀ h ∈ r.lineage g ++ r.subgraphs g, h ∈ r.extent root := by
    intro h hh
    rcases List.mem_append.mp hh with hOut | hInside
    · exact hForest.mem_extent_of_lineage hPlan.isRoot hg hOut
    · exact hForest.extent_subset hPlan.hasRoot hg
        (List.mem_cons_of_mem _ hInside)
  rw [Registry.resolveNode?_eq, Registry.resolveNode?_eq,
    hCopy.lineage_eq hPlan hg (hGraphs g List.mem_cons_self),
    hSubgraphs, ← List.map_append, List.findSome?_map,
    List.map_findSome?]
  apply findSome?_congr
  intro h hh
  exact hCopy.localNode?_eq hPlan (hIn h hh) (hNodes h hh) name

/-
  In a graph below the owner of a node, the name of the node is
  that of its copy only.
-/
theorem eq_of_visible
    (hCopy : φ.IsCopying r root s)
    (hPlan : φ.IsPlan IsGood r root)
    (hg : g ∈ r.extent root)
    (hs : s.HasGraph (φ.graph g))
    (hn : n ∈ r.allNodes root)
    (hOwner : (r.node n).owner ∈ r.lineage g)
    {x : NodeId}
    (hx : s.HasNode x)
    (hNested : s.AreNested (s.node x).owner (φ.graph g))
    (hName : (s.node x).name = (r.node n).name) :
    x = φ.node n := by
  have hForest := hPlan.isBuilt.isForest
  have hOwned := hCopy.isBuilt.isScoped.hasOwner hx
  rcases hCopy.exists_node hx with ⟨m, hm, rfl⟩
  rw [hCopy.owner_eq hm hx] at hNested hOwned
  rw [hCopy.name_eq hm hx] at hName
  rcases hPlan.mem_nodes.mp hm with ⟨hNode, hIn⟩
  have hClose :
      r.AreNested (r.node m).owner (r.node n).owner := by
    rcases (hCopy.areNested_iff hPlan hIn hg hOwned hs).mp hNested
      with hOut | hInside
    · exact hForest.lineage_comparable (hPlan.hasGraph hg) hOut
        hOwner
    · exact .inr (hForest.lineage_subset (hPlan.hasGraph hIn)
        hInside hOwner)
  rw [hPlan.isBuilt.isScoped.unique hNode (hPlan.mem_nodes.mp hn).1
    hName hClose]

theorem resolveNode?_of_made
    (hCopy : φ.IsCopying r root s)
    (hPlan : φ.IsPlan IsGood r root)
    (hg : g ∈ r.extent root)
    (hs : s.HasGraph (φ.graph g))
    (hn : n ∈ r.allNodes root)
    (hOwner : (r.node n).owner ∈ r.lineage g)
    (hMade : s.HasNode (φ.node n)) :
    s.resolveNode? (φ.graph g) (r.node n).name =
      some (φ.node n) := by
  have hForest' := hCopy.isBuilt.isForest
  have hScoped' := hCopy.isBuilt.isScoped
  have hIn := (hPlan.mem_nodes.mp hn).2
  have hUp :
      φ.graph (r.node n).owner ∈ s.lineage (φ.graph g) :=
    (hCopy.mem_lineage hPlan hg hIn hs).mpr hOwner
  have hOwn :
      φ.node n ∈ (s.graph (φ.graph (r.node n).owner)).nodes :=
    hScoped'.mem_nodes.mpr ⟨hMade, hCopy.owner_eq hn hMade⟩
  rw [← hCopy.name_eq hn hMade]
  apply hScoped'.isIndexed.resolveNode?_eq_some_of_unique
    (List.mem_append_left _ hUp) hOwn
  intro x hx m hm hName
  rcases hScoped'.mem_nodes.mp hm with ⟨hNode, rfl⟩
  rw [hCopy.name_eq hn hMade] at hName
  exact hCopy.eq_of_visible hPlan hg hs hn hOwner hNode
    ((hForest'.mem_scopes hs).mp hx).2 hName

theorem resolveNode?_of_new
    (hCopy : φ.IsCopying r root s)
    (hPlan : φ.IsPlan IsGood r root)
    (hg : g ∈ r.extent root)
    (hs : s.HasGraph (φ.graph g))
    (hn : n ∈ r.allNodes root)
    (hOwner : (r.node n).owner ∈ r.lineage g)
    (hNew : ¬ s.HasNode (φ.node n)) :
    s.resolveNode? (φ.graph g) (r.node n).name = none := by
  apply hCopy.isBuilt.isIndexed.resolveNode?_eq_none_iff.mpr
  intro x hx m hm hName
  rcases hCopy.isBuilt.isScoped.mem_nodes.mp hm with ⟨hNode, rfl⟩
  have hEq := hCopy.eq_of_visible hPlan hg hs hn hOwner hNode
    ((hCopy.isBuilt.isForest.mem_scopes hs).mp hx).2 hName
  rw [hEq] at hNode
  exact hNew hNode

end IsCopying

end Numbering

end DotLang
