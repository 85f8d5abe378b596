import DotLang.Proofs.Registry.Change
import DotLang.Registry.Query

/-
  This file defines when two registries are the same apart from
  their edges and from graphs that are strict, and proves that
  names stand for the same in both, and that they stay the same
  when the same is done to both.

  What is done to edges may be done to one of them alone.

  Key definitions include:
    * `Graph.bare`
    * `Node.bare`
    * `Registry.SameBare`

  Key theorems include:
    * `Registry.SameBare.resolveNode?_eq`
    * `Registry.SameBare.findChild?_eq`
    * `Registry.SameBare.addGraph`
    * `Registry.SameBare.addNode`
    * `Registry.SameBare.addEdge`
-/

------------------------------------------------------------
-- Bare Entities
------------------------------------------------------------

namespace DotLang

/- A graph without its edges, and as if it were not strict. -/
def Graph.bare (graph : Graph) : Graph :=
  { graph with
    strict := false
    edges := [] }

/- A node without the edges at it. -/
def Node.bare (node : Node) : Node :=
  { node with
    outEdges := []
    inEdges := [] }

namespace Registry

variable {F : Factory} {r s : Registry F}

/- The same registry, apart from edges and from strict graphs. -/
structure SameBare (r s : Registry F) : Prop where
  graphs : s.graphs.map Graph.bare = r.graphs.map Graph.bare
  nodes : s.nodes.map Node.bare = r.nodes.map Node.bare
  roots : s.roots = r.roots
  scope : s.scope = r.scope
  diagnostics : s.diagnostics = r.diagnostics

namespace SameBare

theorem refl
    (r : Registry F) :
    SameBare r r :=
  ⟨rfl, rfl, rfl, rfl, rfl⟩

theorem symm
    (h : SameBare r s) :
    SameBare s r :=
  ⟨h.graphs.symm, h.nodes.symm, h.roots.symm, h.scope.symm,
    h.diagnostics.symm⟩

theorem trans
    {t : Registry F}
    (h : SameBare r s)
    (h' : SameBare s t) :
    SameBare r t where
  graphs := h'.graphs.trans h.graphs
  nodes := h'.nodes.trans h.nodes
  roots := h'.roots.trans h.roots
  scope := h'.scope.trans h.scope
  diagnostics := h'.diagnostics.trans h.diagnostics

theorem graph_eq
    (h : SameBare r s)
    (g : GraphId) :
    (s.graph g).bare = (r.graph g).bare := by
  have hGet :=
    congrArg (fun a : Array Graph => a.getD g.index default) h.graphs
  exact (getD_map s.graphs Graph.bare default g.index).symm.trans
    (hGet.trans (getD_map r.graphs Graph.bare default g.index))

/- Whatever shows without edges is the same. -/
theorem view_graph
    {β : Type}
    (view : Graph → β)
    (hView : ∀ graph : Graph, view graph.bare = view graph)
    (h : SameBare r s)
    (g : GraphId) :
    view (s.graph g) = view (r.graph g) := by
  rw [← hView, h.graph_eq, hView]

theorem size_graphs
    (h : SameBare r s) :
    s.graphs.size = r.graphs.size := by
  simpa using congrArg Array.size h.graphs

theorem size_nodes
    (h : SameBare r s) :
    s.nodes.size = r.nodes.size := by
  simpa using congrArg Array.size h.nodes

theorem nextGraph_eq
    (h : SameBare r s) :
    s.nextGraph = r.nextGraph :=
  congrArg GraphId.mk h.size_graphs

theorem nextNode_eq
    (h : SameBare r s) :
    s.nextNode = r.nextNode :=
  congrArg NodeId.mk h.size_nodes

theorem hasGraph
    (h : SameBare r s)
    (g : GraphId) :
    s.HasGraph g ↔ r.HasGraph g := by
  rw [HasGraph, HasGraph, h.size_graphs]

theorem hasNode
    (h : SameBare r s)
    (n : NodeId) :
    s.HasNode n ↔ r.HasNode n := by
  rw [HasNode, HasNode, h.size_nodes]

------------------------------------------------------------
-- Names
------------------------------------------------------------

theorem resolveNode?_eq
    (h : SameBare r s)
    (g : GraphId)
    (name : String) :
    s.resolveNode? g name = r.resolveNode? g name :=
  resolveNode?_congr h.size_graphs
    (h.view_graph Graph.parent fun _ => rfl)
    (h.view_graph Graph.children fun _ => rfl)
    (h.view_graph Graph.nodeIndex fun _ => rfl) g name

theorem findChild?_eq
    (h : SameBare r s)
    (g : GraphId)
    (name : String) :
    s.findChild? g name = r.findChild? g name := by
  have hName : ∀ g, (s.graph g).name = (r.graph g).name :=
    h.view_graph Graph.name fun _ => rfl
  have hChildren : (s.graph g).children = (r.graph g).children :=
    h.view_graph Graph.children (fun _ => rfl) g
  simp only [findChild?, hName, hChildren]

------------------------------------------------------------
-- Changes
------------------------------------------------------------

theorem modifyGraph
    (h : SameBare r s)
    {change : Graph → Graph}
    (hComm :
      ∀ graph : Graph, change graph.bare = (change graph).bare)
    (g : GraphId) :
    SameBare (r.modifyGraph g change) (s.modifyGraph g change) :=
  { h with
    graphs := by
      simp only [Registry.modifyGraph, ← modify_map _ _ hComm,
        h.graphs] }

theorem modifyNode
    (h : SameBare r s)
    {change : Node → Node}
    (hComm : ∀ node : Node, change node.bare = (change node).bare)
    (n : NodeId) :
    SameBare (r.modifyNode n change) (s.modifyNode n change) :=
  { h with
    nodes := by
      simp only [Registry.modifyNode, ← modify_map _ _ hComm,
        h.nodes] }

theorem addMember
    (h : SameBare r s)
    (g : GraphId)
    (n : NodeId) :
    SameBare (r.addMember g n) (s.addMember g n) := by
  apply h.modifyGraph
  intro graph
  rw [addMember_eq, addMember_eq]
  rfl

/- Graphs that are made may differ in being strict. -/
theorem addGraph
    (h : SameBare r s)
    {graph graph' : Graph}
    (hGraph : graph'.bare = graph.bare)
    (parent : Option GraphId) :
    SameBare (r.addGraph graph parent).2
      (s.addGraph graph' parent).2 := by
  have hEnter :
      SameBare (r.enterGraph r.nextGraph parent)
        (s.enterGraph s.nextGraph parent) := by
    rw [h.nextGraph_eq]
    cases parent with
    | none => exact { h with roots := congrArg (· ++ _) h.roots }
    | some parent =>
        apply h.modifyGraph
        intro graph
        rfl
  have hNew :
      Graph.bare { graph' with parent := parent } =
        Graph.bare { graph with parent := parent } :=
    congrArg (fun x : Graph => { x with parent := parent }) hGraph
  refine { hEnter with graphs := ?_ }
  simp only [Registry.addGraph, Array.map_push]
  exact congrArg₂ Array.push hEnter.graphs hNew

theorem addNode
    (h : SameBare r s)
    (g : GraphId)
    (name : String)
    (attributes : AttributeTable) :
    SameBare (r.addNode g name attributes).2
      (s.addNode g name attributes).2 := by
  have hList :
      SameBare
        (r.modifyGraph g (Graph.addNode r.nextNode name))
        (s.modifyGraph g (Graph.addNode s.nextNode name)) := by
    rw [h.nextNode_eq]
    apply h.modifyGraph
    intro graph
    rfl
  refine { hList with nodes := ?_ }
  simp only [Registry.addNode, Array.map_push]
  exact congrArg (Array.push · _) h.nodes

/- A change of what does not show makes no difference. -/
theorem changeGraph
    (r : Registry F)
    {change : Graph → Graph}
    (hKeep : ∀ graph : Graph, (change graph).bare = graph.bare)
    (g : GraphId) :
    SameBare r (r.modifyGraph g change) :=
  { refl r with graphs := map_modify_of_eq r.graphs _ hKeep g.index }

theorem changeNode
    (r : Registry F)
    {change : Node → Node}
    (hKeep : ∀ node : Node, (change node).bare = node.bare)
    (n : NodeId) :
    SameBare r (r.modifyNode n change) :=
  { refl r with nodes := map_modify_of_eq r.nodes _ hKeep n.index }

theorem addEdge
    (r : Registry F)
    (g : GraphId)
    (tail head : NodeId)
    (attributes : AttributeTable) :
    SameBare r (r.addEdge g tail head attributes).2 := by
  let listed : Registry F :=
    r.modifyGraph g fun graph =>
      { graph with edges := graph.edges ++ [r.nextEdge] }
  let atTail : Registry F :=
    listed.modifyNode tail fun node =>
      { node with outEdges := node.outEdges ++ [r.nextEdge] }
  have hList : SameBare r listed := changeGraph r (fun _ => by rfl) g
  have hTail : SameBare listed atTail :=
    changeNode listed (fun _ => by rfl) tail
  have hHead :
      SameBare atTail
        (atTail.modifyNode head fun node =>
          { node with inEdges := node.inEdges ++ [r.nextEdge] }) :=
    changeNode atTail (fun _ => by rfl) head
  have hAll := hList.trans (hTail.trans hHead)
  exact { hAll with }

theorem modifyEdge
    (r : Registry F)
    (e : EdgeId)
    (change : Edge → Edge) :
    SameBare r (r.modifyEdge e change) :=
  ⟨rfl, rfl, rfl, rfl, rfl⟩

end SameBare

end Registry

end DotLang
