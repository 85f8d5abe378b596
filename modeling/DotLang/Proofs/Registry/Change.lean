import DotLang.Proofs.AttributeTable
import DotLang.Proofs.Registry.Forest
import DotLang.Proofs.Registry.Names
import Mathlib.Logic.Relation

/-
  This file defines the changes that running statements makes
  to a registry, one after the other, and says which parts of a
  registry each of them leaves as they are.

  The parts are the tree of graphs, the nodes with their owners
  and members, and the edges with their ends.  The tables of
  attributes belong to none of them.

  Key definitions include:
    * `Graph.IsBlank`
    * `Graph.SetsTables`
    * `Registry.declareNode`
    * `Registry.Change`
    * `Registry.Changes`
    * `Registry.SameTree`
    * `Registry.SameNodes`
    * `Registry.SameEdges`
    * `Registry.SameShape`
-/

------------------------------------------------------------
-- New Graphs and Tables
------------------------------------------------------------

namespace DotLang

/- A graph that nothing was added to, whatever its tables. -/
structure Graph.IsBlank (graph : Graph) : Prop where
  nodes : graph.nodes = []
  nodeIndex : graph.nodeIndex = ∅
  members : graph.members = []
  memberSet : graph.memberSet = ∅
  edges : graph.edges = []
  children : graph.children = []

theorem Graph.isBlank_new
    (name : String)
    (directed strict : Bool) :
    (new name directed strict).IsBlank :=
  ⟨rfl, rfl, rfl, rfl, rfl, rfl⟩

theorem Graph.isBlank_newSubgraph
    (name : String)
    (parent : Graph) :
    (newSubgraph name parent).IsBlank :=
  ⟨rfl, rfl, rfl, rfl, rfl, rfl⟩

/- A change of the tables of a graph and of nothing else. -/
def Graph.SetsTables (change : Graph → Graph) : Prop :=
  ∀ graph,
    change graph =
      { graph with
        attributes := (change graph).attributes
        graphDefaults := (change graph).graphDefaults
        nodeDefaults := (change graph).nodeDefaults
        edgeDefaults := (change graph).edgeDefaults }

/- A change of the table of a node and of nothing else. -/
def Node.SetsTable (change : Node → Node) : Prop :=
  ∀ node,
    change node =
      { node with attributes := (change node).attributes }

/- A change of the table of an edge and of nothing else. -/
def Edge.SetsTable (change : Edge → Edge) : Prop :=
  ∀ edge,
    change edge =
      { edge with attributes := (change edge).attributes }

------------------------------------------------------------
-- Changes
------------------------------------------------------------

namespace Registry

variable {F : Factory}

/-
  A graph may mention a node that its name stands for there, or
  that one of its children mentions.
-/
def MayMention
    (r : Registry F)
    (g : GraphId)
    (n : NodeId) : Prop :=
  (∃ name, r.resolveNode? g name = some n) ∨
    ∃ c, (r.graph c).parent = some g ∧ n ∈ (r.graph c).members

/- Make a node that a graph mentions. -/
def declareNode
    (r : Registry F)
    (g : GraphId)
    (name : String) : Registry F :=
  (r.addNode g name (r.graph g).nodeDefaults).2.addMember g
    r.nextNode

/-
  The changes that statements make.  A new child, node or edge
  is one that was looked up in vain, and all values that are
  written to tables are good.
-/
inductive Change
    (IsGood : Value → Prop) : Registry F → Registry F → Prop where
| root
    (r : Registry F)
    (name : String)
    (directed strict : Bool) :
    Change IsGood r
      (r.addGraph (.new name directed strict) none).2
| child
    (r : Registry F)
    (scope : GraphId)
    (name : String)
    (hScope : r.HasGraph scope)
    (hNew : name ≠ "" → r.findChild? scope name = none) :
    Change IsGood r
      (r.addGraph (.newSubgraph name (r.graph scope))
        (some scope)).2
| node
    (r : Registry F)
    (scope : GraphId)
    (name : String)
    (hScope : r.HasGraph scope)
    (hNew : r.resolveNode? scope name = none) :
    Change IsGood r (r.declareNode scope name)
| member
    (r : Registry F)
    (scope : GraphId)
    (n : NodeId)
    (hScope : r.HasGraph scope)
    (hMay : r.MayMention scope n) :
    Change IsGood r (r.addMember scope n)
| edge
    (r : Registry F)
    (scope : GraphId)
    (tail head : NodeId)
    (attributes : AttributeTable)
    (hScope : r.HasGraph scope)
    (hTail : tail ∈ (r.graph scope).members)
    (hHead : head ∈ (r.graph scope).members)
    (hNew :
      (r.graph scope).strict = true → r.findEdge? tail head = none)
    (hTable : attributes.IsMap IsGood) :
    Change IsGood r (r.addEdge scope tail head attributes).2
| setGraph
    (r : Registry F)
    (g : GraphId)
    (attributes : List Attribute)
    (hValues : ∀ a ∈ attributes, IsGood a.value) :
    Change IsGood r
      (r.modifyGraph g (Graph.setAttributes attributes))
| setDefaults
    (r : Registry F)
    (g : GraphId)
    (kind : EntityKind)
    (attributes : List Attribute)
    (hValues : ∀ a ∈ attributes, IsGood a.value) :
    Change IsGood r
      (r.modifyGraph g (Graph.setDefaults kind attributes))
| setNode
    (r : Registry F)
    (n : NodeId)
    (attributes : List Attribute)
    (hValues : ∀ a ∈ attributes, IsGood a.value) :
    Change IsGood r
      (r.modifyNode n (Node.setAttributes attributes))
| setEdge
    (r : Registry F)
    (e : EdgeId)
    (attributes : List Attribute)
    (hValues : ∀ a ∈ attributes, IsGood a.value) :
    Change IsGood r
      (r.modifyEdge e (Edge.setAttributes attributes))
| aside
    (r s : Registry F)
    (hGraphs : s.graphs = r.graphs)
    (hNodes : s.nodes = r.nodes)
    (hEdges : s.edges = r.edges)
    (hRoots : s.roots = r.roots) :
    Change IsGood r s

/- Any number of changes. -/
def Changes
    (IsGood : Value → Prop) : Registry F → Registry F → Prop :=
  Relation.ReflTransGen (Change IsGood)

namespace Changes

variable {IsGood : Value → Prop} {r s t : Registry F}

theorem refl : Changes IsGood r r :=
  Relation.ReflTransGen.refl

theorem single
    (h : Change IsGood r s) :
    Changes IsGood r s :=
  Relation.ReflTransGen.single h

theorem tail
    (h : Changes IsGood r s)
    (hChange : Change IsGood s t) :
    Changes IsGood r t :=
  Relation.ReflTransGen.tail h hChange

theorem trans
    (h : Changes IsGood r s)
    (h' : Changes IsGood s t) :
    Changes IsGood r t :=
  Relation.ReflTransGen.trans h h'

end Changes

------------------------------------------------------------
-- Parts of a Registry
------------------------------------------------------------

/- The same graphs, apart from what they hold. -/
structure SameTree (r s : Registry F) : Prop where
  graphIds : s.graphIds = r.graphIds
  roots : s.roots = r.roots
  name : ∀ g, (s.graph g).name = (r.graph g).name
  directed : ∀ g, (s.graph g).directed = (r.graph g).directed
  strict : ∀ g, (s.graph g).strict = (r.graph g).strict
  parent : ∀ g, (s.graph g).parent = (r.graph g).parent
  children : ∀ g, (s.graph g).children = (r.graph g).children

/- The same nodes, and the same members everywhere. -/
structure SameNodes (r s : Registry F) : Prop where
  nodeIds : s.nodeIds = r.nodeIds
  name : ∀ n, (s.node n).name = (r.node n).name
  owner : ∀ n, (s.node n).owner = (r.node n).owner
  nodes : ∀ g, (s.graph g).nodes = (r.graph g).nodes
  nodeIndex : ∀ g, (s.graph g).nodeIndex = (r.graph g).nodeIndex
  members : ∀ g, (s.graph g).members = (r.graph g).members
  memberSet : ∀ g, (s.graph g).memberSet = (r.graph g).memberSet

/- The same edges at the same nodes. -/
structure SameEdges (r s : Registry F) : Prop where
  edgeIds : s.edgeIds = r.edgeIds
  tail : ∀ e, (s.edge e).tail = (r.edge e).tail
  head : ∀ e, (s.edge e).head = (r.edge e).head
  directed : ∀ e, (s.edge e).directed = (r.edge e).directed
  owner : ∀ e, (s.edge e).owner = (r.edge e).owner
  edges : ∀ g, (s.graph g).edges = (r.graph g).edges
  outEdges : ∀ n, (s.node n).outEdges = (r.node n).outEdges

/- The same registry up to attributes and problems. -/
structure SameShape (r s : Registry F) : Prop where
  tree : SameTree r s
  nodes : SameNodes r s
  edges : SameEdges r s

variable {r s t : Registry F}

theorem SameTree.hasGraph
    (h : SameTree r s)
    (g : GraphId) :
    s.HasGraph g ↔ r.HasGraph g := by
  rw [← mem_graphIds, ← mem_graphIds, h.graphIds]

theorem SameNodes.hasNode
    (h : SameNodes r s)
    (n : NodeId) :
    s.HasNode n ↔ r.HasNode n := by
  rw [← mem_nodeIds, ← mem_nodeIds, h.nodeIds]

theorem SameEdges.hasEdge
    (h : SameEdges r s)
    (e : EdgeId) :
    s.HasEdge e ↔ r.HasEdge e := by
  rw [← mem_edgeIds, ← mem_edgeIds, h.edgeIds]

theorem SameTree.trans
    (h : SameTree r s)
    (h' : SameTree s t) :
    SameTree r t where
  graphIds := h'.graphIds.trans h.graphIds
  roots := h'.roots.trans h.roots
  name g := (h'.name g).trans (h.name g)
  directed g := (h'.directed g).trans (h.directed g)
  strict g := (h'.strict g).trans (h.strict g)
  parent g := (h'.parent g).trans (h.parent g)
  children g := (h'.children g).trans (h.children g)

theorem SameEdges.trans
    (h : SameEdges r s)
    (h' : SameEdges s t) :
    SameEdges r t where
  edgeIds := h'.edgeIds.trans h.edgeIds
  tail e := (h'.tail e).trans (h.tail e)
  head e := (h'.head e).trans (h.head e)
  directed e := (h'.directed e).trans (h.directed e)
  owner e := (h'.owner e).trans (h.owner e)
  edges g := (h'.edges g).trans (h.edges g)
  outEdges n := (h'.outEdges n).trans (h.outEdges n)

------------------------------------------------------------
-- Changes of Attributes
------------------------------------------------------------

theorem view_getD_modify
    {α β : Type}
    (view : α → β)
    {f : α → α}
    (hf : ∀ x, view (f x) = view x)
    (a : Array α)
    (d : α)
    (i j : Nat) :
    view ((a.modify i f).getD j d) = view (a.getD j d) := by
  simp only [Array.getD_eq_getD_getElem?, Array.getElem?_modify]
  by_cases hEq : i = j
  · subst hEq
    rw [if_pos rfl]
    cases a[i]? with
    | none => rfl
    | some x => exact hf x
  · rw [if_neg hEq]

/- What a change keeps in one graph it keeps in all of them. -/
theorem view_modifyGraph
    {β : Type}
    (view : Graph → β)
    {f : Graph → Graph}
    (hf : ∀ graph, view (f graph) = view graph)
    (g h : GraphId) :
    view ((r.modifyGraph g f).graph h) = view (r.graph h) :=
  view_getD_modify view hf _ _ _ _

theorem view_modifyNode
    {β : Type}
    (view : Node → β)
    {f : Node → Node}
    (hf : ∀ node, view (f node) = view node)
    (n m : NodeId) :
    view ((r.modifyNode n f).node m) = view (r.node m) :=
  view_getD_modify view hf _ _ _ _

theorem view_modifyEdge
    {β : Type}
    (view : Edge → β)
    {f : Edge → Edge}
    (hf : ∀ edge, view (f edge) = view edge)
    (e d : EdgeId) :
    view ((r.modifyEdge e f).edge d) = view (r.edge d) :=
  view_getD_modify view hf _ _ _ _

@[simp] theorem graphIds_modifyGraph
    (g : GraphId)
    (f : Graph → Graph) :
    (r.modifyGraph g f).graphIds = r.graphIds := by
  simp [graphIds, modifyGraph]

@[simp] theorem nodeIds_modifyNode
    (n : NodeId)
    (f : Node → Node) :
    (r.modifyNode n f).nodeIds = r.nodeIds := by
  simp [nodeIds, modifyNode]

@[simp] theorem edgeIds_modifyEdge
    (e : EdgeId)
    (f : Edge → Edge) :
    (r.modifyEdge e f).edgeIds = r.edgeIds := by
  simp [edgeIds, modifyEdge]

/- A change of the tables of a graph keeps its shape. -/
theorem sameShape_modifyGraph
    {f : Graph → Graph}
    (hf : Graph.SetsTables f)
    (g : GraphId) :
    SameShape r (r.modifyGraph g f) where
  tree :=
    { graphIds := graphIds_modifyGraph g f
      roots := rfl
      name := view_modifyGraph Graph.name (fun x => by rw [hf]) g
      directed :=
        view_modifyGraph Graph.directed (fun x => by rw [hf]) g
      strict :=
        view_modifyGraph Graph.strict (fun x => by rw [hf]) g
      parent :=
        view_modifyGraph Graph.parent (fun x => by rw [hf]) g
      children :=
        view_modifyGraph Graph.children (fun x => by rw [hf]) g }
  nodes :=
    { nodeIds := rfl
      name := fun _ => rfl
      owner := fun _ => rfl
      nodes :=
        view_modifyGraph Graph.nodes (fun x => by rw [hf]) g
      nodeIndex :=
        view_modifyGraph Graph.nodeIndex (fun x => by rw [hf]) g
      members :=
        view_modifyGraph Graph.members (fun x => by rw [hf]) g
      memberSet :=
        view_modifyGraph Graph.memberSet (fun x => by rw [hf]) g }
  edges :=
    { edgeIds := rfl
      tail := fun _ => rfl
      head := fun _ => rfl
      directed := fun _ => rfl
      owner := fun _ => rfl
      edges :=
        view_modifyGraph Graph.edges (fun x => by rw [hf]) g
      outEdges := fun _ => rfl }

theorem sameShape_modifyNode
    {change : Node → Node}
    (hChange : Node.SetsTable change)
    (n : NodeId) :
    SameShape r (r.modifyNode n change) where
  tree := by constructor <;> intros <;> rfl
  nodes :=
    { nodeIds := nodeIds_modifyNode n change
      name :=
        view_modifyNode Node.name (fun x => by rw [hChange]) n
      owner :=
        view_modifyNode Node.owner (fun x => by rw [hChange]) n
      nodes := fun _ => rfl
      nodeIndex := fun _ => rfl
      members := fun _ => rfl
      memberSet := fun _ => rfl }
  edges :=
    { edgeIds := rfl
      tail := fun _ => rfl
      head := fun _ => rfl
      directed := fun _ => rfl
      owner := fun _ => rfl
      edges := fun _ => rfl
      outEdges :=
        view_modifyNode Node.outEdges (fun x => by rw [hChange])
          n }

theorem sameShape_modifyEdge
    {change : Edge → Edge}
    (hChange : Edge.SetsTable change)
    (e : EdgeId) :
    SameShape r (r.modifyEdge e change) where
  tree := by constructor <;> intros <;> rfl
  nodes := by constructor <;> intros <;> rfl
  edges :=
    { edgeIds := edgeIds_modifyEdge e change
      tail :=
        view_modifyEdge Edge.tail (fun x => by rw [hChange]) e
      head :=
        view_modifyEdge Edge.head (fun x => by rw [hChange]) e
      directed :=
        view_modifyEdge Edge.directed (fun x => by rw [hChange]) e
      owner :=
        view_modifyEdge Edge.owner (fun x => by rw [hChange]) e
      edges := fun _ => rfl
      outEdges := fun _ => rfl }

theorem sameShape_setGraph
    (g : GraphId)
    (attributes : List Attribute) :
    SameShape r
      (r.modifyGraph g (Graph.setAttributes attributes)) :=
  sameShape_modifyGraph (fun _ => rfl) g

theorem sameShape_setDefaults
    (g : GraphId)
    (kind : EntityKind)
    (attributes : List Attribute) :
    SameShape r
      (r.modifyGraph g (Graph.setDefaults kind attributes)) :=
  sameShape_modifyGraph (fun _ => by cases kind <;> rfl) g

theorem sameShape_setNode
    (n : NodeId)
    (attributes : List Attribute) :
    SameShape r
      (r.modifyNode n (Node.setAttributes attributes)) :=
  sameShape_modifyNode (fun _ => rfl) n

theorem sameShape_setEdge
    (e : EdgeId)
    (attributes : List Attribute) :
    SameShape r
      (r.modifyEdge e (Edge.setAttributes attributes)) :=
  sameShape_modifyEdge (fun _ => rfl) e

theorem sameShape_aside
    (hGraphs : s.graphs = r.graphs)
    (hNodes : s.nodes = r.nodes)
    (hEdges : s.edges = r.edges)
    (hRoots : s.roots = r.roots) :
    SameShape r s where
  tree := by
    constructor <;> simp [graphIds, graph, hGraphs, hRoots]
  nodes := by
    constructor <;> simp [nodeIds, node, graph, hGraphs, hNodes]
  edges := by
    constructor <;>
      simp [edgeIds, edge, node, graph, hGraphs, hNodes, hEdges]

------------------------------------------------------------
-- New Graphs
------------------------------------------------------------

/- A view that a new graph shows as none do, and no list of children. -/
theorem view_addGraph
    {β : Type}
    (view : Graph → β)
    {graph : Graph}
    {parent : Option GraphId}
    (hParent : ∀ g, parent = some g → r.HasGraph g)
    (hNew : view { graph with parent := parent } = view default)
    (hChildren :
      ∀ (graph : Graph) (children : List GraphId),
        view { graph with children := children } = view graph)
    (h : GraphId) :
    view ((r.addGraph graph parent).2.graph h) =
      view (r.graph h) := by
  cases parent with
  | none =>
      rw [graph_addGraph_none]
      by_cases hNext : h = r.nextGraph
      · rw [if_pos hNext, hNext, graph_nextGraph, hNew]
      · rw [if_neg hNext]
  | some g =>
      rw [graph_addGraph_some graph (hParent g rfl)]
      by_cases hNext : h = r.nextGraph
      · rw [if_pos hNext, hNext, graph_nextGraph, hNew]
      · rw [if_neg hNext]
        by_cases hEq : h = g
        · rw [if_pos hEq, hChildren, hEq]
        · rw [if_neg hEq]

section Graphs

variable {graph : Graph} {parent : Option GraphId}

/- A new graph adds no node. -/
theorem sameNodes_addGraph
    (hParent : ∀ g, parent = some g → r.HasGraph g)
    (hBlank : graph.IsBlank) :
    SameNodes r (r.addGraph graph parent).2 where
  nodeIds := nodeIds_addGraph graph parent
  name n := by rw [node_addGraph]
  owner n := by rw [node_addGraph]
  nodes :=
    view_addGraph Graph.nodes hParent hBlank.nodes (fun _ _ => rfl)
  nodeIndex :=
    view_addGraph Graph.nodeIndex hParent hBlank.nodeIndex
      (fun _ _ => rfl)
  members :=
    view_addGraph Graph.members hParent hBlank.members
      (fun _ _ => rfl)
  memberSet :=
    view_addGraph Graph.memberSet hParent hBlank.memberSet
      (fun _ _ => rfl)

/- A new graph adds no edge. -/
theorem sameEdges_addGraph
    (hParent : ∀ g, parent = some g → r.HasGraph g)
    (hBlank : graph.IsBlank) :
    SameEdges r (r.addGraph graph parent).2 where
  edgeIds := edgeIds_addGraph graph parent
  tail e := by rw [edge_addGraph]
  head e := by rw [edge_addGraph]
  directed e := by rw [edge_addGraph]
  owner e := by rw [edge_addGraph]
  edges :=
    view_addGraph Graph.edges hParent hBlank.edges (fun _ _ => rfl)
  outEdges n := by rw [node_addGraph]

end Graphs

------------------------------------------------------------
-- New Nodes and Members
------------------------------------------------------------

/- A change of the nodes of a graph keeps the tree. -/
theorem sameTree_modifyGraph
    {f : Graph → Graph}
    (hf :
      ∀ graph,
        f graph =
          { graph with
            nodes := (f graph).nodes
            nodeIndex := (f graph).nodeIndex
            members := (f graph).members
            memberSet := (f graph).memberSet
            edges := (f graph).edges })
    (g : GraphId) :
    SameTree r (r.modifyGraph g f) where
  graphIds := graphIds_modifyGraph g f
  roots := rfl
  name := view_modifyGraph Graph.name (fun x => by rw [hf]) g
  directed :=
    view_modifyGraph Graph.directed (fun x => by rw [hf]) g
  strict := view_modifyGraph Graph.strict (fun x => by rw [hf]) g
  parent := view_modifyGraph Graph.parent (fun x => by rw [hf]) g
  children :=
    view_modifyGraph Graph.children (fun x => by rw [hf]) g

theorem addMember_eq
    (graph : Graph)
    (n : NodeId) :
    graph.addMember n =
      { graph with
        members :=
          if n ∈ graph.memberSet then
            graph.members
          else
            graph.members ++ [n]
        memberSet := graph.memberSet.insert n } := by
  unfold Graph.addMember Graph.isMember
  by_cases hMem : n ∈ graph.memberSet
  · have hSame : graph.memberSet.insert n = graph.memberSet := by
      ext m
      rw [Std.ExtTreeSet.mem_insert, Std.compare_eq_iff_eq]
      constructor
      · rintro (rfl | hOld)
        · exact hMem
        · exact hOld
      · exact .inr
    simp [hMem, hSame]
  · simp [hMem]

theorem sameTree_addMember
    (g : GraphId)
    (n : NodeId) :
    SameTree r (r.addMember g n) :=
  sameTree_modifyGraph (fun graph => by rw [addMember_eq]) g

/- A member changes no more of a graph than its members. -/
theorem view_graph_addMember
    {β : Type}
    (g : GraphId)
    (n : NodeId)
    (view : Graph → β)
    (hView :
      ∀ (graph : Graph) (members : List NodeId)
        (memberSet : Std.ExtTreeSet NodeId),
        view
            { graph with
              members := members
              memberSet := memberSet } =
          view graph)
    (h : GraphId) :
    view ((r.addMember g n).graph h) = view (r.graph h) :=
  view_modifyGraph view
    (fun graph => by rw [addMember_eq, hView]) g h

theorem sameEdges_addMember
    (g : GraphId)
    (n : NodeId) :
    SameEdges r (r.addMember g n) where
  edgeIds := rfl
  tail _ := rfl
  head _ := rfl
  directed _ := rfl
  owner _ := rfl
  edges := view_graph_addMember g n Graph.edges fun _ _ _ => rfl
  outEdges _ := rfl

section Nodes

variable (g : GraphId) (name : String) (attributes : AttributeTable)

/- A node changes no more of a graph than its nodes. -/
theorem view_graph_addNode
    {β : Type}
    (view : Graph → β)
    (hView :
      ∀ (graph : Graph) (nodes : List NodeId)
        (nodeIndex : Std.ExtTreeMap String NodeId),
        view
            { graph with
              nodes := nodes
              nodeIndex := nodeIndex } =
          view graph)
    (h : GraphId) :
    view ((r.addNode g name attributes).2.graph h) =
      view (r.graph h) :=
  view_modifyGraph view (fun _ => hView _ _ _) g h

theorem sameTree_addNode :
    SameTree r (r.addNode g name attributes).2 where
  graphIds := graphIds_addNode g name attributes
  roots := rfl
  name := view_graph_addNode g _ _ Graph.name fun _ _ _ => rfl
  directed :=
    view_graph_addNode g _ _ Graph.directed fun _ _ _ => rfl
  strict := view_graph_addNode g _ _ Graph.strict fun _ _ _ => rfl
  parent := view_graph_addNode g _ _ Graph.parent fun _ _ _ => rfl
  children :=
    view_graph_addNode g _ _ Graph.children fun _ _ _ => rfl

theorem sameEdges_addNode :
    SameEdges r (r.addNode g name attributes).2 where
  edgeIds := rfl
  tail _ := rfl
  head _ := rfl
  directed _ := rfl
  owner _ := rfl
  edges := view_graph_addNode g _ _ Graph.edges fun _ _ _ => rfl
  outEdges n := by
    rw [node_addNode]
    by_cases hNext : n = r.nextNode
    · rw [if_pos hNext, hNext, node_nextNode]
      rfl
    · rw [if_neg hNext]

end Nodes

------------------------------------------------------------
-- New Edges
------------------------------------------------------------

section Edges

variable
  (g : GraphId)
  (tail head : NodeId)
  (attributes : AttributeTable)

/- An edge changes no more of a graph than its list of edges. -/
theorem view_graph_addEdge
    {β : Type}
    (view : Graph → β)
    (hView :
      ∀ (graph : Graph) (edges : List EdgeId),
        view { graph with edges := edges } = view graph)
    (h : GraphId) :
    view ((r.addEdge g tail head attributes).2.graph h) =
      view (r.graph h) :=
  view_modifyGraph view (fun _ => hView _ _) g h

theorem sameTree_addEdge :
    SameTree r (r.addEdge g tail head attributes).2 where
  graphIds := graphIds_addEdge g tail head attributes
  roots := rfl
  name := view_graph_addEdge g _ _ _ Graph.name fun _ _ => rfl
  directed :=
    view_graph_addEdge g _ _ _ Graph.directed fun _ _ => rfl
  strict := view_graph_addEdge g _ _ _ Graph.strict fun _ _ => rfl
  parent := view_graph_addEdge g _ _ _ Graph.parent fun _ _ => rfl
  children :=
    view_graph_addEdge g _ _ _ Graph.children fun _ _ => rfl

/- An edge changes no more of a node than its lists of edges. -/
theorem view_node_addEdge
    {β : Type}
    (view : Node → β)
    (hOut :
      ∀ (node : Node) (edges : List EdgeId),
        view { node with outEdges := edges } = view node)
    (hIn :
      ∀ (node : Node) (edges : List EdgeId),
        view { node with inEdges := edges } = view node)
    (n : NodeId) :
    view ((r.addEdge g tail head attributes).2.node n) =
      view (r.node n) :=
  (view_modifyNode view (fun _ => hIn _ _) head n).trans
    (view_modifyNode view (fun _ => hOut _ _) tail n)

theorem sameNodes_addEdge :
    SameNodes r (r.addEdge g tail head attributes).2 where
  nodeIds := nodeIds_addEdge g tail head attributes
  name :=
    view_node_addEdge g _ _ _ Node.name (fun _ _ => rfl)
      fun _ _ => rfl
  owner :=
    view_node_addEdge g _ _ _ Node.owner (fun _ _ => rfl)
      fun _ _ => rfl
  nodes := view_graph_addEdge g _ _ _ Graph.nodes fun _ _ => rfl
  nodeIndex :=
    view_graph_addEdge g _ _ _ Graph.nodeIndex fun _ _ => rfl
  members :=
    view_graph_addEdge g _ _ _ Graph.members fun _ _ => rfl
  memberSet :=
    view_graph_addEdge g _ _ _ Graph.memberSet fun _ _ => rfl

end Edges

end Registry

end DotLang
