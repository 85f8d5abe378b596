import DotLang.Proofs.Dot.Subgraph
import Mathlib.Data.Set.Function

/-
  This file proves that a finished copy of a graph is isomorphic
  to the graph, and that both have the same text.

  Key definitions include:
    * `Numbering.IsIsomorphism`
    * `Numbering.IsFinished`

  Key theorems include:
    * `Numbering.IsFinished.isIsomorphism`
    * `Numbering.IsFinished.toDot_eq`
-/

------------------------------------------------------------
-- Isomorphisms
------------------------------------------------------------

namespace DotLang

open Registry

namespace Numbering

/- A graph and its image are alike, and so is what they hold. -/
structure MatchesGraph
    (φ : Numbering)
    (graph image : Graph) : Prop where
  name : image.name = graph.name
  directed : image.directed = graph.directed
  strict : image.strict = graph.strict
  parent : image.parent = graph.parent.map φ.graph
  children : image.children = graph.children.map φ.graph
  nodes : image.nodes = graph.nodes.map φ.node
  nodeIndex :
    ∀ name : String,
      image.nodeIndex[name]? = graph.nodeIndex[name]?.map φ.node
  members :
    ∀ x, x ∈ image.members ↔ ∃ n ∈ graph.members, φ.node n = x
  memberSet :
    ∀ x, x ∈ image.memberSet ↔ ∃ n ∈ graph.memberSet, φ.node n = x
  edges : image.edges = graph.edges.map φ.edge
  attributes : image.attributes = graph.attributes

structure MatchesNode
    (φ : Numbering)
    (node image : Node) : Prop where
  name : image.name = node.name
  owner : image.owner = φ.graph node.owner
  attributes : image.attributes = node.attributes

structure MatchesEdge
    (φ : Numbering)
    (edge image : Edge) : Prop where
  tail : image.tail = φ.node edge.tail
  head : image.head = φ.node edge.head
  directed : image.directed = edge.directed
  owner : image.owner = φ.graph edge.owner
  attributes : image.attributes = edge.attributes

variable {F H : Factory} {IsGood : Value → Prop}

/-
  A graph and all inside it correspond one to one to a graph and
  all inside that, in the same or in another registry.
-/
structure IsIsomorphism
    (φ : Numbering)
    (r : Registry F)
    (g : GraphId)
    (s : Registry H)
    (h : GraphId) : Prop where
  root : φ.graph g = h
  graphs : Set.BijOn φ.graph {f | f ∈ r.extent g} {f | f ∈ s.extent h}
  nodes :
    Set.BijOn φ.node {n | n ∈ r.allNodes g} {n | n ∈ s.allNodes h}
  edges :
    Set.BijOn φ.edge {e | e ∈ r.allEdges g} {e | e ∈ s.allEdges h}
  graph :
    ∀ f ∈ r.extent g,
      φ.MatchesGraph (r.graph f) (s.graph (φ.graph f))
  node :
    ∀ n ∈ r.allNodes g,
      φ.MatchesNode (r.node n) (s.node (φ.node n))
  edge :
    ∀ e ∈ r.allEdges g,
      φ.MatchesEdge (r.edge e) (s.edge (φ.edge e))

------------------------------------------------------------
-- Finished Copies
------------------------------------------------------------

/- All that belongs to a graph is copied, and nothing is open. -/
structure IsFinished
    (φ : Numbering)
    (r : Registry F)
    (root : GraphId)
    (s : Registry H) : Prop where
  isCopying : φ.IsCopying r root s
  isDone : ∀ g ∈ r.extent root, φ.IsDone r g s
  hasNode : ∀ n ∈ r.allNodes root, s.HasNode (φ.node n)
  hasEdge : ∀ e ∈ r.madeEdges root, s.HasEdge (φ.edge e)

variable
  {φ : Numbering}
  {r : Registry F}
  {s : Registry H}
  {root g : GraphId}
  {n : NodeId}
  {e : EdgeId}

theorem IsPlan.mem_allEdges
    (hPlan : φ.IsPlan IsGood r root) :
    e ∈ r.allEdges root ↔ e ∈ r.madeEdges root := by
  rw [hPlan.mem_edges]
  exact mem_edgesOf hPlan.isBuilt.isLinked

/- A list and its image correspond one to one. -/
theorem bijOn_of_map
    {α β : Type}
    {f : α → β}
    {items : List α}
    {images : List β}
    (hImages : images = items.map f)
    (hInj : ∀ x ∈ items, ∀ y ∈ items, f x = f y → x = y) :
    Set.BijOn f {x | x ∈ items} {y | y ∈ images} := by
  rw [hImages]
  refine ⟨?_, ?_, ?_⟩
  · intro x hx
    exact List.mem_map_of_mem hx
  · intro x hx y hy hEq
    exact hInj x hx y hy hEq
  · intro y hy
    exact List.mem_map.mp hy

namespace IsFinished

theorem extent_eq
    (hFinished : φ.IsFinished r root s)
    (hPlan : φ.IsPlan IsGood r root) :
    s.extent (φ.graph root) = (r.extent root).map φ.graph :=
  hFinished.isCopying.extent_eq hPlan List.mem_cons_self
    fun g hg => (hFinished.isDone g hg).hasGraph

/- A finished copy is the only top level graph of its registry. -/
theorem roots_eq
    (hFinished : φ.IsFinished r root s)
    (hPlan : φ.IsPlan IsGood r root) :
    s.roots = [φ.graph root] := by
  have hForest := hPlan.isBuilt.isForest
  have hForest' := hFinished.isCopying.isBuilt.isForest
  have hIn : root ∈ r.extent root := List.mem_cons_self
  rcases hForest.mem_roots.mp hPlan.isRoot with ⟨hRoot, hTop⟩
  have hs := (hFinished.isDone root hIn).hasGraph
  refine eq_map_of_pairwise GraphId.index (?_ :
    (([root] : List GraphId).map fun g =>
      (φ.graph g).index).Pairwise (· < ·)) ?_ ?_
  · exact List.pairwise_singleton _ _
  · rw [hForest'.roots_eq]
    exact pairwise_ids (fun _ => rfl) _ _
  · intro x
    rw [hForest'.mem_roots]
    constructor
    · rintro ⟨hx, hParent⟩
      rcases hFinished.isCopying.exists_graph hx with ⟨g, hg, rfl⟩
      rw [hFinished.isCopying.parent_eq hg hx,
        Option.map_eq_none_iff] at hParent
      have hUp := ((hForest.mem_extent hRoot).mp hg).2
      rw [IsForest.lineage_of_root (hPlan.hasGraph hg) hParent]
        at hUp
      exact ⟨root, List.mem_cons_self,
        congrArg φ.graph (List.mem_singleton.mp hUp)⟩
    · rintro ⟨g, hg, rfl⟩
      rw [List.mem_singleton.mp hg]
      refine ⟨hs, ?_⟩
      rw [hFinished.isCopying.parent_eq hIn hs, hTop]
      rfl

theorem children_eq
    (hFinished : φ.IsFinished r root s)
    (hPlan : φ.IsPlan IsGood r root)
    (hg : g ∈ r.extent root) :
    (s.graph (φ.graph g)).children =
      (r.graph g).children.map φ.graph := by
  have hForest := hPlan.isBuilt.isForest
  apply hFinished.isCopying.children_eq hPlan hg
    (hFinished.isDone g hg).hasGraph
  intro c hc
  have hParent := (hForest.mem_children (hPlan.hasGraph hg)).mp hc
  exact (hFinished.isDone c
    (hPlan.ne_of_inside hg hParent List.mem_cons_self).1).hasGraph

theorem nodes_eq
    (hFinished : φ.IsFinished r root s)
    (hPlan : φ.IsPlan IsGood r root)
    (hg : g ∈ r.extent root) :
    (s.graph (φ.graph g)).nodes = (r.graph g).nodes.map φ.node := by
  apply hFinished.isCopying.nodes_eq hPlan hg
  intro n hn
  exact hFinished.hasNode n (List.mem_flatMap.mpr ⟨g, hg, hn⟩)

theorem edges_eq
    (hFinished : φ.IsFinished r root s)
    (hPlan : φ.IsPlan IsGood r root)
    (hg : g ∈ r.extent root) :
    (s.graph (φ.graph g)).edges = (r.graph g).edges.map φ.edge := by
  apply hFinished.isCopying.edges_eq hPlan hg
  intro e he
  exact hFinished.hasEdge e (hPlan.mem_allEdges.mp
    (List.mem_flatMap.mpr ⟨g, hg, he⟩))

theorem members_eq
    (hFinished : φ.IsFinished r root s)
    (hg : g ∈ r.extent root) :
    (s.graph (φ.graph g)).members =
      (r.writtenNodes g).map φ.node :=
  congrArg Prod.snd (hFinished.isDone g hg).contents

theorem attributes_eq
    (hFinished : φ.IsFinished r root s)
    (hg : g ∈ r.extent root) :
    (s.graph (φ.graph g)).attributes = (r.graph g).attributes :=
  congrArg Prod.fst (hFinished.isDone g hg).contents

theorem matchesGraph
    (hFinished : φ.IsFinished r root s)
    (hPlan : φ.IsPlan IsGood r root)
    (hg : g ∈ r.extent root) :
    φ.MatchesGraph (r.graph g) (s.graph (φ.graph g)) := by
  have hCopy := hFinished.isCopying
  have hs := (hFinished.isDone g hg).hasGraph
  have hMembers :
      ∀ x,
        x ∈ (s.graph (φ.graph g)).members ↔
          ∃ n ∈ (r.graph g).members, φ.node n = x := by
    intro x
    rw [hFinished.members_eq hg, List.mem_map]
    simp only [(writtenNodes_perm
      hPlan.isBuilt.isScoped g).mem_iff]
  exact
    { name := IsCopying.view_eq Graph.name (fun _ => rfl) hCopy hg hs
      directed :=
        IsCopying.view_eq Graph.directed (fun _ => rfl) hCopy hg hs
      strict :=
        IsCopying.view_eq Graph.strict (fun _ => rfl) hCopy hg hs
      parent := hCopy.parent_eq hg hs
      children := hFinished.children_eq hPlan hg
      nodes := hFinished.nodes_eq hPlan hg
      nodeIndex :=
        hCopy.localNode?_eq hPlan hg fun n hn =>
          hFinished.hasNode n (List.mem_flatMap.mpr ⟨g, hg, hn⟩)
      members := hMembers
      memberSet := by
        intro x
        simp only [hCopy.isBuilt.isIndexed.mem_memberSet,
          hPlan.isBuilt.isIndexed.mem_memberSet, hMembers]
      edges := hFinished.edges_eq hPlan hg
      attributes := hFinished.attributes_eq hg }

theorem matchesNode
    (hFinished : φ.IsFinished r root s)
    (hn : n ∈ r.allNodes root) :
    φ.MatchesNode (r.node n) (s.node (φ.node n)) := by
  have hs := hFinished.hasNode n hn
  have hOutline := hFinished.isCopying.node hn hs
  have hTable := congrArg Node.attributes hOutline
  exact
    { name := hFinished.isCopying.name_eq hn hs
      owner := hFinished.isCopying.owner_eq hn hs
      attributes := hTable }

theorem matchesEdge
    (hFinished : φ.IsFinished r root s)
    (he : e ∈ r.madeEdges root) :
    φ.MatchesEdge (r.edge e) (s.edge (φ.edge e)) := by
  rw [hFinished.isCopying.edge he (hFinished.hasEdge e he)]
  exact ⟨rfl, rfl, rfl, rfl, rfl⟩

/- A finished copy corresponds one to one to the original. -/
theorem isIsomorphism
    (hFinished : φ.IsFinished r root s)
    (hPlan : φ.IsPlan IsGood r root) :
    φ.IsIsomorphism r root s (φ.graph root) := by
  have hExtent := hFinished.extent_eq hPlan
  have hNodes :
      s.allNodes (φ.graph root) = (r.allNodes root).map φ.node := by
    unfold allNodes
    rw [hExtent, List.flatMap_map, List.map_flatMap]
    apply List.flatMap_congr
    intro f hf
    exact hFinished.nodes_eq hPlan hf
  have hEdges :
      s.allEdges (φ.graph root) = (r.allEdges root).map φ.edge := by
    unfold allEdges
    rw [hExtent, List.flatMap_map, List.map_flatMap]
    apply List.flatMap_congr
    intro f hf
    exact hFinished.edges_eq hPlan hf
  exact
    { root := rfl
      graphs := bijOn_of_map hExtent fun f hf f' hf' hEq =>
        hPlan.graph_inj hf hf' hEq
      nodes := bijOn_of_map hNodes fun n hn n' hn' hEq =>
        hPlan.node_inj hn hn' hEq
      edges := bijOn_of_map hEdges fun e he e' he' hEq =>
        hPlan.edge_inj (hPlan.mem_allEdges.mp he)
          (hPlan.mem_allEdges.mp he') hEq
      graph := fun f hf => hFinished.matchesGraph hPlan hf
      node := fun n hn => hFinished.matchesNode hn
      edge := fun e he =>
        hFinished.matchesEdge (hPlan.mem_allEdges.mp he) }

------------------------------------------------------------
-- Texts of Copies
------------------------------------------------------------

/- The nodes that a copy mentions are copies of those mentioned. -/
theorem writtenNodes_eq
    (hFinished : φ.IsFinished r root s)
    (hPlan : φ.IsPlan IsGood r root)
    (hg : g ∈ r.extent root) :
    s.visibleNodes (φ.graph g) = (r.visibleNodes g).map φ.node ∧
      s.nestedNodes (φ.graph g) =
        (r.nestedNodes g).map φ.node := by
  have hScoped := hPlan.isBuilt.isScoped
  have hCopy := hFinished.isCopying
  have hs := (hFinished.isDone g hg).hasGraph
  have hMembers := hFinished.members_eq hg
  have hAround :
      ∀ n ∈ r.writtenNodes g,
        (s.lineage (φ.graph g)).contains
            (s.node (φ.node n)).owner =
          (r.lineage g).contains (r.node n).owner := by
    intro n hn
    have hMember := (writtenNodes_perm hScoped g).mem_iff.mp hn
    have hNode := hPlan.mem_nodes_of_member hg hMember
    rw [hCopy.owner_eq hNode (hFinished.hasNode n hNode),
      Bool.eq_iff_iff, List.contains_iff_mem, List.contains_iff_mem]
    exact hCopy.mem_lineage hPlan hg (hPlan.mem_nodes.mp hNode).2 hs
  have hSeen :
      ∀ n ∈ r.visibleNodes g,
        (s.lineage (φ.graph g)).contains
          (s.node (φ.node n)).owner = true := by
    intro n hn
    rw [hAround n (List.mem_append_left _ hn)]
    exact List.contains_iff_mem.mpr
      ((mem_visibleNodes hScoped).mp hn).2
  have hHidden :
      ∀ n ∈ r.nestedNodes g,
        (s.lineage (φ.graph g)).contains
          (s.node (φ.node n)).owner = false := by
    intro n hn
    rw [hAround n (List.mem_append_right _ hn)]
    simpa using (List.mem_filter.mp hn).2
  constructor
  · rw [visibleNodes_eq hCopy.isBuilt.isScoped, hMembers,
      writtenNodes, List.filter_map, List.filter_append,
      List.filter_eq_self.mpr (by simpa using hSeen),
      List.filter_eq_nil_iff.mpr (by simpa using hHidden),
      List.append_nil]
  · rw [nestedNodes, hMembers, writtenNodes, List.filter_map,
      List.filter_append,
      List.filter_eq_nil_iff.mpr (by simpa using hSeen),
      List.filter_eq_self.mpr (by simpa using hHidden),
      List.nil_append]

theorem header_eq
    (hFinished : φ.IsFinished r root s)
    (hPlan : φ.IsPlan IsGood r root)
    (hg : g ∈ r.extent root) :
    (s.graph (φ.graph g)).header = (r.graph g).header := by
  have hMatches := hFinished.matchesGraph hPlan hg
  have hRoot :
      (s.graph (φ.graph g)).isRoot = (r.graph g).isRoot := by
    rw [Graph.isRoot, hMatches.parent, Option.isNone_map]
    rfl
  unfold Graph.header
  rw [hRoot, hMatches.name, hMatches.directed, hMatches.strict]

theorem nodeLine_eq
    (hFinished : φ.IsFinished r root s)
    (hPlan : φ.IsPlan IsGood r root)
    (hg : g ∈ r.extent root)
    (hn : n ∈ r.allNodes root) :
    s.nodeLine (φ.graph g) (φ.node n) = r.nodeLine g n := by
  have hMatches := hFinished.matchesNode hn
  have hOwner :
      (s.node (φ.node n)).owner = φ.graph g ↔
        (r.node n).owner = g := by
    rw [hMatches.owner]
    constructor
    · exact hPlan.graph_inj (hPlan.mem_nodes.mp hn).2 hg
    · exact congrArg φ.graph
  unfold nodeLine
  simp only [hOwner, hMatches.name, hMatches.attributes]

theorem edgeLine_eq
    (hFinished : φ.IsFinished r root s)
    (hPlan : φ.IsPlan IsGood r root)
    (he : e ∈ r.madeEdges root)
    (directed : Bool) :
    s.edgeLine directed (φ.edge e) = r.edgeLine directed e := by
  have hMatches := hFinished.matchesEdge he
  have hEnds := hPlan.mem_ends he
  unfold edgeLine
  simp only [hMatches.tail, hMatches.head, hMatches.attributes,
    (hFinished.matchesNode hEnds.1).name,
    (hFinished.matchesNode hEnds.2).name]

theorem nodeLines_eq
    (hFinished : φ.IsFinished r root s)
    (hPlan : φ.IsPlan IsGood r root)
    (hg : g ∈ r.extent root) :
    (s.visibleNodes (φ.graph g)).map (s.nodeLine (φ.graph g)) =
        (r.visibleNodes g).map (r.nodeLine g) ∧
      (s.nestedNodes (φ.graph g)).map (s.nodeLine (φ.graph g)) =
        (r.nestedNodes g).map (r.nodeLine g) := by
  have hWritten := hFinished.writtenNodes_eq hPlan hg
  have hNode :
      ∀ n ∈ r.writtenNodes g,
        s.nodeLine (φ.graph g) (φ.node n) = r.nodeLine g n := by
    intro n hn
    apply hFinished.nodeLine_eq hPlan hg
    exact hPlan.mem_nodes_of_member hg
      ((writtenNodes_perm hPlan.isBuilt.isScoped g).mem_iff.mp hn)
  constructor
  · rw [hWritten.1, List.map_map]
    exact List.map_congr_left fun n hn =>
      hNode n (List.mem_append_left _ hn)
  · rw [hWritten.2, List.map_map]
    exact List.map_congr_left fun n hn =>
      hNode n (List.mem_append_right _ hn)

theorem edgeLines_eq
    (hFinished : φ.IsFinished r root s)
    (hPlan : φ.IsPlan IsGood r root)
    (hg : g ∈ r.extent root) :
    (s.graph (φ.graph g)).edges.map
        (s.edgeLine (s.graph (φ.graph g)).directed) =
      (r.graph g).edges.map (r.edgeLine (r.graph g).directed) := by
  have hMatches := hFinished.matchesGraph hPlan hg
  rw [hMatches.edges, hMatches.directed, List.map_map]
  apply List.map_congr_left
  intro e he
  exact hFinished.edgeLine_eq hPlan
    (hPlan.mem_allEdges.mp (List.mem_flatMap.mpr ⟨g, hg, he⟩)) _

/- The lines of a copy are those of the original. -/
theorem dotLines_eq
    (hFinished : φ.IsFinished r root s)
    (hPlan : φ.IsPlan IsGood r root)
    (depth : Nat) :
    ∀ (depth' level : Nat) {g : GraphId},
      g ∈ r.extent root →
        r.graphs.size ≤ g.index + depth →
        s.graphs.size ≤ (φ.graph g).index + depth' →
        s.dotLines depth' level (φ.graph g) =
          r.dotLines depth level g := by
  have hForest := hPlan.isBuilt.isForest
  have hForest' := hFinished.isCopying.isBuilt.isForest
  induction depth with
  | zero =>
      intro depth' level g hg hDepth _
      have hLt : g.index < r.graphs.size := hPlan.hasGraph hg
      omega
  | succ depth ih =>
      intro depth' level g hg hDepth hDepth'
      have hMatches := hFinished.matchesGraph hPlan hg
      have hs := (hFinished.isDone g hg).hasGraph
      rcases depth' with _ | depth'
      · have hLt : (φ.graph g).index < s.graphs.size := hs
        omega
      rcases hFinished.nodeLines_eq hPlan hg with
        ⟨hBefore, hBehind⟩
      have hEdges := hFinished.edgeLines_eq hPlan hg
      have hChildren :
          (s.graph (φ.graph g)).children.flatMap
              (s.dotLines depth' (level + 1)) =
            (r.graph g).children.flatMap
              (r.dotLines depth (level + 1)) := by
        rw [hMatches.children, List.flatMap_map]
        apply List.flatMap_congr
        intro c hc
        have hParent :=
          (hForest.mem_children (hPlan.hasGraph hg)).mp hc
        have hIn :=
          (hPlan.ne_of_inside hg hParent List.mem_cons_self).1
        have hUp := (hFinished.isCopying.parent_iff hPlan hIn hg
          (hFinished.isDone c hIn).hasGraph).mpr hParent
        have hLt := hForest.parent_lt hParent
        have hLt' := hForest'.parent_lt hUp
        exact ih depth' (level + 1) hIn (by omega) (by omega)
      simp only [dotLines, hBefore, hBehind, hChildren, hEdges,
        hFinished.header_eq hPlan hg, hMatches.attributes]

/- The text of a finished copy is that of the original. -/
theorem toDot_eq
    (hFinished : φ.IsFinished r root s)
    (hPlan : φ.IsPlan IsGood r root) :
    s.toDot (φ.graph root) = r.toDot root := by
  unfold toDot
  rw [hFinished.dotLines_eq hPlan r.graphs.size s.graphs.size 0
    List.mem_cons_self (Nat.le_add_left _ _) (Nat.le_add_left _ _)]

end IsFinished

end Numbering

end DotLang
