import DotLang.Proofs.Registry.Names
import DotLang.Proofs.Registry.Upkeep
import Mathlib.Data.List.Find

/-
  This file defines what it is to put one registry behind another
  one, and proves that what a registry is asked, and what is done
  to it, comes to the same behind another one.

  The handles of the registry behind are moved past those of the
  registry in front, which is not looked at and stays as it is.

  Key definitions include:
    * `Offset`
    * `Graph.shift`
    * `Node.shift`
    * `Edge.shift`
    * `Registry.append`

  Key theorems include:
    * `Registry.resolveNode?_append`
    * `Registry.findChild?_append`
    * `Registry.findEdge?_append`
    * `Registry.addGraph_append`
    * `Registry.addNode_append`
    * `Registry.addEdge_append`
-/

------------------------------------------------------------
-- Offsets
------------------------------------------------------------

namespace DotLang

/- How many graphs, nodes and edges handles are moved past. -/
structure Offset where
  graphs : Nat
  nodes : Nat
  edges : Nat
deriving DecidableEq, Repr

namespace Offset

variable (k : Offset)

/- Handles of graphs, nodes and edges where they are moved to. -/
def graph (g : GraphId) : GraphId :=
  ⟨k.graphs + g.index⟩

def node (n : NodeId) : NodeId :=
  ⟨k.nodes + n.index⟩

def edge (e : EdgeId) : EdgeId :=
  ⟨k.edges + e.index⟩

@[simp] theorem node_inj
    {n m : NodeId} :
    k.node n = k.node m ↔ n = m := by
  rcases n with ⟨i⟩
  rcases m with ⟨j⟩
  simp [node]

/- An index of nodes and a set of nodes after a move. -/
def nodeIndex
    (index : Std.ExtTreeMap String NodeId) :
    Std.ExtTreeMap String NodeId :=
  index.map fun _ n => k.node n

def nodeSet
    (nodes : Std.ExtTreeSet NodeId) : Std.ExtTreeSet NodeId :=
  .ofList (nodes.toList.map k.node)

theorem nodeIndex_insert
    (index : Std.ExtTreeMap String NodeId)
    (name : String)
    (n : NodeId) :
    k.nodeIndex (index.insert name n) =
      (k.nodeIndex index).insert name (k.node n) := by
  ext other
  simp only [nodeIndex, Std.ExtTreeMap.getElem?_map,
    Std.ExtTreeMap.getElem?_insert]
  split <;> rfl

theorem mem_nodeSet
    {nodes : Std.ExtTreeSet NodeId}
    {m : NodeId} :
    m ∈ k.nodeSet nodes ↔ ∃ n ∈ nodes, k.node n = m := by
  simp [nodeSet, Std.ExtTreeSet.mem_ofList]

theorem nodeSet_insert
    (nodes : Std.ExtTreeSet NodeId)
    (n : NodeId) :
    k.nodeSet (nodes.insert n) =
      (k.nodeSet nodes).insert (k.node n) := by
  ext m
  simp only [mem_nodeSet, Std.ExtTreeSet.mem_insert,
    Std.compare_eq_iff_eq, or_and_right, exists_or, exists_eq_left']

end Offset

------------------------------------------------------------
-- Entities
------------------------------------------------------------

/- An entity that names others by their handles after a move. -/
def Graph.shift (k : Offset) (graph : Graph) : Graph :=
  { graph with
    parent := graph.parent.map k.graph
    nodes := graph.nodes.map k.node
    nodeIndex := k.nodeIndex graph.nodeIndex
    members := graph.members.map k.node
    memberSet := k.nodeSet graph.memberSet
    edges := graph.edges.map k.edge
    children := graph.children.map k.graph }

def Node.shift (k : Offset) (node : Node) : Node :=
  { node with
    owner := k.graph node.owner
    outEdges := node.outEdges.map k.edge
    inEdges := node.inEdges.map k.edge }

def Edge.shift (k : Offset) (edge : Edge) : Edge :=
  { edge with
    tail := k.node edge.tail
    head := k.node edge.head
    owner := k.graph edge.owner }

------------------------------------------------------------
-- Registries
------------------------------------------------------------

namespace Registry

/- How many entities there are. -/
def counts {F : Factory} (r : Registry F) : Offset where
  graphs := r.graphs.size
  nodes := r.nodes.size
  edges := r.edges.size

/-
  One registry behind another one.  The graphs that are open in
  the one behind are further in.
-/
def append (r s : Registry .plain) : Registry .plain where
  graphs := r.graphs ++ s.graphs.map (Graph.shift r.counts)
  nodes := r.nodes ++ s.nodes.map (Node.shift r.counts)
  edges := r.edges ++ s.edges.map (Edge.shift r.counts)
  graphData := r.graphData ++ s.graphData
  nodeData := r.nodeData ++ s.nodeData
  edgeData := r.edgeData ++ s.edgeData
  roots := r.roots ++ s.roots.map r.counts.graph
  scope := s.scope.map r.counts.graph ++ r.scope
  diagnostics := r.diagnostics ++ s.diagnostics
  options := r.options
  factory := r.factory

end Registry

------------------------------------------------------------
-- Arrays
------------------------------------------------------------

section Arrays

variable {α β : Type} (a : Array α) (b : Array β) (f : β → α)

theorem getD_append_left
    (c : Array α)
    (d : α)
    {i : Nat}
    (hi : i < a.size) :
    (a ++ c).getD i d = a.getD i d := by
  simp only [Array.getD_eq_getD_getElem?,
    Array.getElem?_append_left hi]

theorem getD_append_map
    {d : α}
    {d' : β}
    (i : Nat)
    (hDefault : b.size ≤ i → d = f d') :
    (a ++ b.map f).getD (a.size + i) d = f (b.getD i d') := by
  simp only [Array.getD_eq_getD_getElem?,
    Array.getElem?_append_right (Nat.le_add_right _ _),
    Nat.add_sub_cancel_left, Array.getElem?_map]
  by_cases hi : i < b.size
  · simp [hi]
  · simp [hi, hDefault (Nat.not_lt.mp hi)]

theorem modify_append_right
    (c : Array α)
    (h : α → α)
    (i : Nat) :
    (a ++ c).modify (a.size + i) h = a ++ c.modify i h := by
  apply Array.ext_getElem?
  intro j
  rw [Array.getElem?_modify]
  by_cases hj : j < a.size
  · rw [if_neg (by omega), Array.getElem?_append_left hj,
      Array.getElem?_append_left hj]
  · obtain ⟨j, rfl⟩ := Nat.exists_eq_add_of_le (Nat.not_lt.mp hj)
    simp only [Array.getElem?_append_right (Nat.le_add_right _ _),
      Nat.add_sub_cancel_left, Array.getElem?_modify,
      Nat.add_left_cancel_iff]

theorem modify_append_map
    {h : α → α}
    {h' : β → β}
    (hComm : ∀ x, h (f x) = f (h' x))
    (i : Nat) :
    (a ++ b.map f).modify (a.size + i) h =
      a ++ (b.modify i h').map f := by
  rw [modify_append_right, modify_map b f hComm]

end Arrays

------------------------------------------------------------
-- Entities Behind and in Front
------------------------------------------------------------

namespace Registry

section Entities

variable (r s : Registry .plain)

theorem graph_append
    (g : GraphId) :
    (r.append s).graph (r.counts.graph g) =
      (s.graph g).shift r.counts :=
  getD_append_map r.graphs s.graphs _ g.index fun _ => rfl

/- What names no handles is the same behind. -/
theorem view_graph_append
    {β : Type}
    (view : Graph → β)
    (hView :
      ∀ (k : Offset) (graph : Graph),
        view (graph.shift k) = view graph)
    (g : GraphId) :
    view ((r.append s).graph (r.counts.graph g)) =
      view (s.graph g) := by
  rw [graph_append, hView]

theorem children_append
    (g : GraphId) :
    ((r.append s).graph (r.counts.graph g)).children =
      (s.graph g).children.map r.counts.graph := by
  rw [graph_append]
  rfl

theorem node_append
    {n : NodeId}
    (hn : s.HasNode n) :
    (r.append s).node (r.counts.node n) =
      (s.node n).shift r.counts :=
  getD_append_map r.nodes s.nodes _ n.index
    fun hLe => absurd hn (Nat.not_lt.mpr hLe)

theorem edge_append
    {e : EdgeId}
    (he : s.HasEdge e) :
    (r.append s).edge (r.counts.edge e) =
      (s.edge e).shift r.counts :=
  getD_append_map r.edges s.edges _ e.index
    fun hLe => absurd he (Nat.not_lt.mpr hLe)

/- What is in front stays as it is. -/
theorem graph_append_of_hasGraph
    {g : GraphId}
    (hg : r.HasGraph g) :
    (r.append s).graph g = r.graph g :=
  getD_append_left r.graphs _ _ hg

theorem node_append_of_hasNode
    {n : NodeId}
    (hn : r.HasNode n) :
    (r.append s).node n = r.node n :=
  getD_append_left r.nodes _ _ hn

theorem edge_append_of_hasEdge
    {e : EdgeId}
    (he : r.HasEdge e) :
    (r.append s).edge e = r.edge e :=
  getD_append_left r.edges _ _ he

theorem nextGraph_append :
    (r.append s).nextGraph = r.counts.graph s.nextGraph := by
  simp [nextGraph, append, counts, Offset.graph]

theorem nextNode_append :
    (r.append s).nextNode = r.counts.node s.nextNode := by
  simp [nextNode, append, counts, Offset.node]

theorem nextEdge_append :
    (r.append s).nextEdge = r.counts.edge s.nextEdge := by
  simp [nextEdge, append, counts, Offset.edge]

end Entities

------------------------------------------------------------
-- Walks
------------------------------------------------------------

section Walks

variable (r : Registry .plain) {s : Registry .plain} {g : GraphId}

theorem lineageWithin_append
    (bound : Nat)
    (g : GraphId) :
    (r.append s).lineageWithin bound (r.counts.graph g) =
      (s.lineageWithin bound g).map r.counts.graph := by
  induction bound generalizing g with
  | zero => rfl
  | succ bound ih =>
      simp only [lineageWithin, graph_append]
      cases hParent : (s.graph g).parent with
      | none => simp [Graph.shift, hParent]
      | some parent => simp [Graph.shift, hParent, ih]

theorem walkWithin_append
    (bound : Nat)
    (pending : List GraphId) :
    (r.append s).walkWithin bound (pending.map r.counts.graph) =
      (s.walkWithin bound pending).map r.counts.graph := by
  induction bound generalizing pending with
  | zero => simp [walkWithin]
  | succ bound ih =>
      cases pending with
      | nil => simp [walkWithin]
      | cons g pending =>
          simp only [walkWithin, List.map_cons, children_append,
            ← List.map_append, ih]

theorem size_le_append :
    s.graphs.size ≤ (r.append s).graphs.size := by
  simp [append]

theorem lineage_append
    (hForest : s.IsForest)
    (hg : s.HasGraph g) :
    (r.append s).lineage (r.counts.graph g) =
      (s.lineage g).map r.counts.graph := by
  have hSize := size_le_append r (s := s)
  rw [lineage, lineageWithin_append, lineage,
    hForest.lineageWithin_stable hg _ _
      (Nat.lt_of_lt_of_le hg hSize) hg]

theorem subgraphs_append
    (hForest : s.IsForest)
    (hg : s.HasGraph g) :
    (r.append s).subgraphs (r.counts.graph g) =
      (s.subgraphs g).map r.counts.graph := by
  rw [subgraphs, children_append, walkWithin_append,
    hForest.walkWithin_children hg (size_le_append r),
    hForest.subgraphs_eq hg]

end Walks

------------------------------------------------------------
-- Names
------------------------------------------------------------

section Names

variable (r : Registry .plain) {s : Registry .plain} {g : GraphId}

theorem localNode?_append
    (g : GraphId)
    (name : String) :
    (r.append s).localNode? (r.counts.graph g) name =
      (s.localNode? g name).map r.counts.node := by
  rw [localNode?, graph_append]
  exact Std.ExtTreeMap.getElem?_map

theorem resolveNode?_append
    (h : s.IsConsistent)
    (hg : s.HasGraph g)
    (name : String) :
    (r.append s).resolveNode? (r.counts.graph g) name =
      (s.resolveNode? g name).map r.counts.node := by
  rw [resolveNode?_eq, resolveNode?_eq,
    lineage_append r h.isForest hg,
    subgraphs_append r h.isForest hg, ← List.map_append,
    List.findSome?_map, List.map_findSome?]
  congr 1
  funext f
  exact localNode?_append r f name

theorem findChild?_append
    (g : GraphId)
    (name : String) :
    (r.append s).findChild? (r.counts.graph g) name =
      (s.findChild? g name).map r.counts.graph := by
  have hName :
      ∀ c,
        ((r.append s).graph (r.counts.graph c)).name =
          (s.graph c).name :=
    view_graph_append r s Graph.name fun _ _ => rfl
  simp only [findChild?, children_append, List.find?_map,
    Function.comp_def, hName]

end Names

------------------------------------------------------------
-- Edges
------------------------------------------------------------

/- An edge at a node is looked for by where it leads. -/
theorem find?_outEdges_append
    (r : Registry .plain)
    {s : Registry .plain}
    (hEdges : s.ListsEdges)
    {n m : NodeId}
    (hn : s.HasNode n)
    (accepts : Bool → Bool) :
    (((r.append s).node (r.counts.node n)).outEdges.find? fun e =>
        accepts ((r.append s).edge e).directed &&
          ((r.append s).edge e).head = r.counts.node m) =
      ((s.node n).outEdges.find? fun e =>
        accepts (s.edge e).directed &&
          (s.edge e).head = m).map r.counts.edge := by
  rw [node_append r s hn]
  simp only [Node.shift, List.find?_map]
  congr 1
  apply List.find?_congr
  intro e he
  have hEdge := (hEdges.mem_outEdges.mp he).1
  simp [edge_append r s hEdge, Edge.shift]

theorem findEdge?_append
    (r : Registry .plain)
    {s : Registry .plain}
    (hEdges : s.ListsEdges)
    {tail head : NodeId}
    (hTail : s.HasNode tail)
    (hHead : s.HasNode head) :
    (r.append s).findEdge? (r.counts.node tail)
        (r.counts.node head) =
      (s.findEdge? tail head).map r.counts.edge := by
  have hForward :=
    find?_outEdges_append r hEdges (m := head) hTail fun _ => true
  have hBackward :=
    find?_outEdges_append r hEdges (m := tail) hHead Bool.not
  simp only [Bool.true_and] at hForward
  rw [findEdge?, hForward, hBackward, findEdge?, Option.map_or]

------------------------------------------------------------
-- Changes
------------------------------------------------------------

section Changes

variable (r s : Registry .plain)

theorem modifyGraph_append
    (change change' : Graph → Graph)
    (hComm :
      ∀ graph,
        change (graph.shift r.counts) =
          (change' graph).shift r.counts)
    (g : GraphId) :
    (r.append s).modifyGraph (r.counts.graph g) change =
      r.append (s.modifyGraph g change') := by
  have hGraphs :=
    modify_append_map r.graphs s.graphs _ hComm g.index
  simp only [modifyGraph, append, Offset.graph, counts] at hGraphs ⊢
  rw [hGraphs]

theorem modifyNode_append
    (change change' : Node → Node)
    (hComm :
      ∀ node,
        change (node.shift r.counts) =
          (change' node).shift r.counts)
    (n : NodeId) :
    (r.append s).modifyNode (r.counts.node n) change =
      r.append (s.modifyNode n change') := by
  have hNodes := modify_append_map r.nodes s.nodes _ hComm n.index
  simp only [modifyNode, append, Offset.node, counts] at hNodes ⊢
  rw [hNodes]

theorem modifyEdge_append
    (change change' : Edge → Edge)
    (hComm :
      ∀ edge,
        change (edge.shift r.counts) =
          (change' edge).shift r.counts)
    (e : EdgeId) :
    (r.append s).modifyEdge (r.counts.edge e) change =
      r.append (s.modifyEdge e change') := by
  have hEdges := modify_append_map r.edges s.edges _ hComm e.index
  simp only [modifyEdge, append, Offset.edge, counts] at hEdges ⊢
  rw [hEdges]

theorem enterGraph_append
    (g : GraphId)
    (parent : Option GraphId) :
    (r.append s).enterGraph (r.counts.graph g)
        (parent.map r.counts.graph) =
      r.append (s.enterGraph g parent) := by
  cases parent with
  | none => simp [enterGraph, append, counts]
  | some parent =>
      apply modifyGraph_append
      intro graph
      simp [Graph.shift]

/- Entities are put at the end of both registries. -/
theorem push_graph_append
    (graph : Graph)
    (data : Factory.plain.GraphData) :
    r.append
        { s with
          graphs := s.graphs.push graph
          graphData := s.graphData.push data } =
      { r.append s with
        graphs := (r.append s).graphs.push (graph.shift r.counts)
        graphData := (r.append s).graphData.push data } := by
  simp only [append, Array.map_push, Array.push_append]

theorem push_node_append
    (node : Node)
    (data : Factory.plain.NodeData) :
    r.append
        { s with
          nodes := s.nodes.push node
          nodeData := s.nodeData.push data } =
      { r.append s with
        nodes := (r.append s).nodes.push (node.shift r.counts)
        nodeData := (r.append s).nodeData.push data } := by
  simp only [append, Array.map_push, Array.push_append]

theorem push_edge_append
    (edge : Edge)
    (data : Factory.plain.EdgeData) :
    r.append
        { s with
          edges := s.edges.push edge
          edgeData := s.edgeData.push data } =
      { r.append s with
        edges := (r.append s).edges.push (edge.shift r.counts)
        edgeData := (r.append s).edgeData.push data } := by
  simp only [append, Array.map_push, Array.push_append]

theorem addGraph_append
    (graph : Graph)
    (parent : Option GraphId) :
    (r.append s).addGraph (graph.shift r.counts)
        (parent.map r.counts.graph) =
      (r.counts.graph s.nextGraph,
        r.append (s.addGraph graph parent).2) := by
  have hNext := nextGraph_append r s
  have hEnter := enterGraph_append r s s.nextGraph parent
  refine Prod.ext hNext ?_
  refine Eq.trans ?_ (push_graph_append r
    (s.enterGraph s.nextGraph parent)
    { graph with parent := parent } ()).symm
  rw [← hEnter, ← hNext]
  rfl

theorem addNode_append
    (g : GraphId)
    (name : String)
    (attributes : AttributeTable) :
    (r.append s).addNode (r.counts.graph g) name attributes =
      (r.counts.node s.nextNode,
        r.append (s.addNode g name attributes).2) := by
  have hNext := nextNode_append r s
  have hList :=
    modifyGraph_append r s
      (Graph.addNode (r.append s).nextNode name)
      (Graph.addNode s.nextNode name)
      (fun graph => by
        simp [Graph.addNode, Graph.shift, hNext,
          Offset.nodeIndex_insert]) g
  refine Prod.ext hNext ?_
  refine Eq.trans ?_ (push_node_append r
    (s.modifyGraph g (Graph.addNode s.nextNode name))
    { name := name, owner := g, attributes := attributes }
    ()).symm
  rw [← hList]
  rfl

theorem addMember_append
    (g : GraphId)
    (n : NodeId) :
    (r.append s).addMember (r.counts.graph g) (r.counts.node n) =
      r.append (s.addMember g n) := by
  apply modifyGraph_append
  intro graph
  have hMember :
      (graph.shift r.counts).isMember (r.counts.node n) =
        graph.isMember n := by
    rw [Bool.eq_iff_iff]
    simp [Graph.isMember, Graph.shift, Offset.mem_nodeSet]
  unfold Graph.addMember
  rw [hMember]
  split
  · rfl
  · simp [Graph.shift, Offset.nodeSet_insert]

/- An edge is listed by its owner and at both of its ends. -/
theorem addEdge_append
    (g : GraphId)
    (tail head : NodeId)
    (attributes : AttributeTable) :
    (r.append s).addEdge (r.counts.graph g) (r.counts.node tail)
        (r.counts.node head) attributes =
      (r.counts.edge s.nextEdge,
        r.append (s.addEdge g tail head attributes).2) := by
  have hNext := nextEdge_append r s
  let listed :=
    s.modifyGraph g fun graph =>
      { graph with edges := graph.edges ++ [s.nextEdge] }
  let atTail :=
    listed.modifyNode tail fun node =>
      { node with outEdges := node.outEdges ++ [s.nextEdge] }
  have hList :=
    modifyGraph_append r s
      (fun graph =>
        { graph with edges := graph.edges ++ [(r.append s).nextEdge] })
      (fun graph =>
        { graph with edges := graph.edges ++ [s.nextEdge] })
      (fun graph => by simp [Graph.shift, hNext]) g
  have hTail :=
    modifyNode_append r listed
      (fun node =>
        { node with
          outEdges := node.outEdges ++ [(r.append s).nextEdge] })
      (fun node =>
        { node with outEdges := node.outEdges ++ [s.nextEdge] })
      (fun node => by simp [Node.shift, hNext]) tail
  have hHead :=
    modifyNode_append r atTail
      (fun node =>
        { node with
          inEdges := node.inEdges ++ [(r.append s).nextEdge] })
      (fun node =>
        { node with inEdges := node.inEdges ++ [s.nextEdge] })
      (fun node => by simp [Node.shift, hNext]) head
  have hDirected :
      ((r.append s).graph (r.counts.graph g)).directed =
        (s.graph g).directed :=
    view_graph_append r s Graph.directed (fun _ _ => rfl) g
  refine Prod.ext hNext ?_
  refine Eq.trans ?_ (push_edge_append r
    (atTail.modifyNode head fun node =>
      { node with inEdges := node.inEdges ++ [s.nextEdge] })
    { tail := tail
      head := head
      directed := (s.graph g).directed
      owner := g
      attributes := attributes }
    ()).symm
  rw [← hHead, ← hTail, ← hList, ← hDirected]
  rfl

end Changes

end Registry

end DotLang
