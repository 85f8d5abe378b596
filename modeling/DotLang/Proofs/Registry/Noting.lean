import DotLang.Proofs.Registry.Persistence
import DotLang.Proofs.Registry.Simulation

/-
  This file defines a factory that notes what is made, in the
  order in which it is made.  A build works with notes as it does
  without them, whether debug lines are asked for or not, and the
  notes hold what is new in a registry.

  Key definitions include:
    * `Made`
    * `Made.event`
    * `Factory.noting`
    * `Registry.noting`
    * `Registry.forget`
    * `Build.forget`
    * `Registry.IsNoted`

  Key theorems include:
    * `Build.resolveNode_forget`
    * `Build.openSubgraph_forget`
    * `Build.connectPair_forget`
    * `Registry.Step.event_eq`
    * `Registry.Step.isNoted`
-/

------------------------------------------------------------
-- Notes of What Is Made
------------------------------------------------------------

namespace DotLang

/- An entity that was made. -/
inductive Made where
| graph (g : GraphId)
| node (n : NodeId)
| edge (e : EdgeId)
deriving DecidableEq, Repr, Inhabited

namespace Made

def graph? : Made → Option GraphId
| graph g => some g
| _ => none

def node? : Made → Option NodeId
| node n => some n
| _ => none

def edge? : Made → Option EdgeId
| edge e => some e
| _ => none

end Made

/- The handles that come next, and what was made so far. -/
structure Notes where
  nextGraph : GraphId
  nextNode : NodeId
  nextEdge : EdgeId
  made : List Made
deriving DecidableEq, Repr, Inhabited

namespace Notes

def addGraph (s : Notes) : Notes :=
  { s with
    nextGraph := ⟨s.nextGraph.index + 1⟩
    made := s.made ++ [.graph s.nextGraph] }

def addNode (s : Notes) : Notes :=
  { s with
    nextNode := ⟨s.nextNode.index + 1⟩
    made := s.made ++ [.node s.nextNode] }

def addEdge (s : Notes) : Notes :=
  { s with
    nextEdge := ⟨s.nextEdge.index + 1⟩
    made := s.made ++ [.edge s.nextEdge] }

end Notes

/- A factory that makes the same data, and notes what is made. -/
def Factory.noting (F : Factory) : Factory where
  State := F.State × Notes
  GraphData := F.GraphData
  NodeData := F.NodeData
  EdgeData := F.EdgeData
  makeGraph graph s :=
    let made := F.makeGraph graph s.1
    (made.1, made.2, s.2.addGraph)
  makeNode node s :=
    let made := F.makeNode node s.1
    (made.1, made.2, s.2.addNode)
  makeEdge edge s :=
    let made := F.makeEdge edge s.1
    (made.1, made.2, s.2.addEdge)

namespace Registry

variable {F : Factory}

/- A registry from which on is noted what is made. -/
def noting (r : Registry F) : Registry F.noting :=
  { graphs := r.graphs
    nodes := r.nodes
    edges := r.edges
    graphData := r.graphData
    nodeData := r.nodeData
    edgeData := r.edgeData
    roots := r.roots
    scope := r.scope
    diagnostics := r.diagnostics
    options := r.options
    factory :=
      (r.factory,
        { nextGraph := r.nextGraph
          nextNode := r.nextNode
          nextEdge := r.nextEdge
          made := [] }) }

/- What was made since then. -/
def made (r : Registry F.noting) : List Made :=
  r.factory.2.made

/- The registry without notes, with debug lines or without. -/
def forget (debug : Bool) (r : Registry F.noting) : Registry F :=
  { graphs := r.graphs
    nodes := r.nodes
    edges := r.edges
    graphData := r.graphData
    nodeData := r.nodeData
    edgeData := r.edgeData
    roots := r.roots
    scope := r.scope
    diagnostics := r.diagnostics
    options := { r.options with debug := debug }
    factory := r.factory.1 }

variable (debug : Bool) (r : Registry F.noting)

------------------------------------------------------------
-- Questions without Notes
------------------------------------------------------------

@[simp] theorem graph_forget
    (g : GraphId) :
    (r.forget debug).graph g = r.graph g :=
  rfl

theorem lineageWithin_forget
    (bound : Nat)
    (g : GraphId) :
    (r.forget debug).lineageWithin bound g =
      r.lineageWithin bound g := by
  induction bound generalizing g with
  | zero => rfl
  | succ bound ih => simp only [lineageWithin, graph_forget, ih]

theorem walkWithin_forget
    (bound : Nat)
    (pending : List GraphId) :
    (r.forget debug).walkWithin bound pending =
      r.walkWithin bound pending := by
  induction bound generalizing pending with
  | zero => rfl
  | succ bound ih =>
      cases pending with
      | nil => rfl
      | cons g pending => simp only [walkWithin, graph_forget, ih]

theorem resolveNode?_forget
    (g : GraphId)
    (name : String) :
    (r.forget debug).resolveNode? g name = r.resolveNode? g name := by
  have hLineage : (r.forget debug).lineage g = r.lineage g :=
    lineageWithin_forget debug r _ g
  have hSubgraphs : (r.forget debug).subgraphs g = r.subgraphs g :=
    walkWithin_forget debug r _ _
  simp only [resolveNode?, findNode?, findNestedNode?, hLineage,
    hSubgraphs]
  rfl

------------------------------------------------------------
-- Making Entities without Notes
------------------------------------------------------------

theorem addGraph_forget
    (graph : Graph)
    (parent : Option GraphId) :
    (r.forget debug).addGraph graph parent =
      ((r.addGraph graph parent).1,
        (r.addGraph graph parent).2.forget debug) := by
  cases parent <;> rfl

end Registry

------------------------------------------------------------
-- Builds without Notes
------------------------------------------------------------

namespace Build

variable {F : Factory}

/- A build without notes, with debug lines or without. -/
def forget (debug : Bool) (b : Build F.noting) : Build F where
  registry := b.registry.forget debug
  events := b.events

variable (debug : Bool) (b : Build F.noting) (scope : GraphId)

theorem makeGraph_forget
    (graph : Graph)
    (parent : Option GraphId) :
    (b.forget debug).makeGraph graph parent =
      ((b.makeGraph graph parent).1,
        (b.makeGraph graph parent).2.forget debug) := by
  simp only [makeGraph, forget, Registry.addGraph_forget]
  rfl

theorem resolveNode_forget
    (name : String) :
    (b.forget debug).resolveNode scope name =
      ((b.resolveNode scope name).1,
        (b.resolveNode scope name).2.forget debug) := by
  simp only [resolveNode, forget, Registry.resolveNode?_forget]
  cases b.registry.resolveNode? scope name <;> rfl

theorem openSubgraph_forget
    (name : String) :
    (b.forget debug).openSubgraph scope name =
      ((b.openSubgraph scope name).1,
        (b.openSubgraph scope name).2.forget debug) := by
  rcases openSubgraph_cases b scope name with
    ⟨g, hName, hFind, hOpen⟩ | ⟨hNew, hOpen⟩
  · rw [hOpen]
    exact openSubgraph_of_some hName hFind
  · rw [hOpen, openSubgraph_of_new (b := b.forget debug) hNew]
    exact makeGraph_forget debug b _ (some scope)

theorem checkArrow_forget
    (arrow : Arrow)
    (location : Location) :
    (b.forget debug).checkArrow scope arrow location =
      (b.checkArrow scope arrow location).forget debug := by
  simp only [checkArrow, forget, Registry.graph_forget]
  cases arrowWarning? (b.registry.graph scope).directed arrow <;> rfl

theorem connectPair_forget
    (attributes : AttributeTable)
    (tail head : NodeId) :
    (b.forget debug).connectPair scope attributes tail head =
      (b.connectPair scope attributes tail head).forget debug := by
  rcases connectPair_cases b scope attributes tail head with
    ⟨e, hStrict, hFind, hConnect⟩ | ⟨hNew, hConnect⟩
  · have hSame :=
      connectPair_of_some (b := b.forget debug) hStrict hFind
        attributes
    rw [hConnect, hSame]
    rfl
  · have hSame :=
      connectPair_of_new (b := b.forget debug) hNew attributes
    rw [hConnect, hSame]
    rfl

theorem applyDefaults_forget
    (kind : EntityKind)
    (attributes : List Attribute) :
    (b.forget debug).applyDefaults scope kind attributes =
      (b.applyDefaults scope kind attributes).forget debug := by
  cases kind <;> rfl

end Build

------------------------------------------------------------
-- What Is Told about an Entity
------------------------------------------------------------

namespace Made

variable {F : Factory}

/- The entity is one of the registry. -/
def IsIn (r : Registry F) : Made → Prop
| graph g => r.HasGraph g
| node n => r.HasNode n
| edge e => r.HasEdge e

/- That the entity was made, told by how it is now. -/
def event (r : Registry F) : Made → Event
| graph g =>
    .graphMade (r.graph g).name (r.graph g).parent
      (r.graph g).directed
| node n => .nodeMade (r.node n).name (r.node n).owner
| edge e =>
    .edgeMade (r.node (r.edge e).tail).name (r.edge e).arrow
      (r.node (r.edge e).head).name

end Made

namespace Registry

variable {F : Factory} {r s : Registry F}

/- Nodes keep their names and their owners. -/
theorem Step.name_node
    (hStep : Step r s)
    {n : NodeId}
    (hn : r.HasNode n) :
    (s.node n).name = (r.node n).name ∧
      (s.node n).owner = (r.node n).owner := by
  cases hStep with
  | addGraph graph parent => simp
  | addNode g name attributes =>
      simp [node_addNode, hn.ne_next]
  | addEdge g tail head attributes =>
      have hSame := sameNodes_addEdge (r := r) g tail head attributes
      exact ⟨hSame.name n, hSame.owner n⟩
  | setNode m change _ hChange =>
      have hSame := (sameShape_modifyNode (r := r) hChange m).nodes
      exact ⟨hSame.name n, hSame.owner n⟩
  | addMember | setGraph | setEdge | pushScope | popScope
  | diagnose => exact ⟨rfl, rfl⟩

/- Edges keep their direction. -/
theorem Step.directed_edge
    (hStep : Step r s)
    {e : EdgeId}
    (he : r.HasEdge e) :
    (s.edge e).directed = (r.edge e).directed := by
  cases hStep with
  | addGraph graph parent => simp
  | addEdge g tail head attributes =>
      rw [edge_addEdge, if_neg he.ne_next]
  | setEdge d change _ hChange =>
      exact (sameShape_modifyEdge (r := r) hChange d).edges.directed e
  | addNode | addMember | setGraph | setNode | pushScope | popScope
  | diagnose => rfl

/- What is told about an entity stays what it is. -/
theorem Step.event_eq
    (hStep : Step r s)
    (h : r.IsConsistent)
    {m : Made}
    (hm : m.IsIn r) :
    m.event s = m.event r := by
  have hRetains := hStep.retains
  cases m with
  | graph g =>
      have hg : r.HasGraph g := hm
      simp only [Made.event, hRetains.name hg,
        hRetains.grows.parent hg, hRetains.grows.directed hg]
  | node n =>
      simp only [Made.event, hStep.name_node hm]
  | edge e =>
      have he : r.HasEdge e := hm
      have hTail := h.listsEdges.hasTail he
      have hHead := h.listsEdges.hasHead he
      have hEnds : s.ends e = r.ends e := hRetains.ends he
      have hTails : (s.edge e).tail = (r.edge e).tail :=
        congrArg Prod.fst hEnds
      have hHeads : (s.edge e).head = (r.edge e).head :=
        congrArg Prod.snd hEnds
      simp only [Made.event, Edge.arrow, hTails, hHeads,
        hStep.directed_edge he, hStep.name_node hTail,
        hStep.name_node hHead]

theorem Steps.isIn
    (hSteps : Steps r s)
    {m : Made}
    (hm : m.IsIn r) :
    m.IsIn s := by
  cases m with
  | graph g => exact hSteps.hasGraph hm
  | node n => exact hSteps.hasNode hm
  | edge e => exact hSteps.retains.hasEdge hm

theorem Steps.event_eq
    (hSteps : Steps r s)
    (h : r.IsConsistent)
    {m : Made}
    (hm : m.IsIn r) :
    m.event s = m.event r := by
  induction hSteps with
  | refl => rfl
  | tail hBefore hStep ih =>
      have hBefore : Steps r _ := hBefore
      rw [hStep.event_eq (hBefore.isConsistent h) (hBefore.isIn hm),
        ih]

------------------------------------------------------------
-- What Is Noted
------------------------------------------------------------

/-
  The notes hold what a registry has more than another one, each
  kind of entity in the order of its handles.
-/
structure IsNoted (r : Registry F) (s : Registry F.noting) : Prop where
  nextGraph : s.factory.2.nextGraph = s.nextGraph
  nextNode : s.factory.2.nextNode = s.nextNode
  nextEdge : s.factory.2.nextEdge = s.nextEdge
  graphIds :
    s.graphIds = r.graphIds ++ s.made.filterMap Made.graph?
  nodeIds : s.nodeIds = r.nodeIds ++ s.made.filterMap Made.node?
  edgeIds : s.edgeIds = r.edgeIds ++ s.made.filterMap Made.edge?

/- Notes leave a registry consistent. -/
theorem IsConsistent.noting
    (h : r.IsConsistent) :
    r.noting.IsConsistent where
  isForest :=
    { parent_lt := h.isForest.parent_lt
      children_eq := h.isForest.children_eq
      roots_eq := h.isForest.roots_eq }
  listsNodes :=
    { isIndexed :=
        { hasNode := h.isIndexed.hasNode
          nodeIndex_eq := h.isIndexed.nodeIndex_eq
          mem_memberSet := h.isIndexed.mem_memberSet }
      hasOwner := h.listsNodes.hasOwner
      nodes_eq := h.listsNodes.nodes_eq
      nodup_members := h.listsNodes.nodup_members
      hasNode := h.listsNodes.hasNode }
  listsEdges :=
    { hasOwner := h.listsEdges.hasOwner
      hasTail := h.listsEdges.hasTail
      hasHead := h.listsEdges.hasHead
      edges_eq := h.listsEdges.edges_eq
      outEdges_eq := h.listsEdges.outEdges_eq
      inEdges_eq := h.listsEdges.inEdges_eq
      directed := h.listsEdges.directed }
  carriesData :=
    ⟨h.carriesData.graphs, h.carriesData.nodes, h.carriesData.edges⟩
  scope := h.scope

theorem isNoted_noting
    (r : Registry F) :
    r.IsNoted r.noting where
  nextGraph := rfl
  nextNode := rfl
  nextEdge := rfl
  graphIds := (List.append_nil _).symm
  nodeIds := (List.append_nil _).symm
  edgeIds := (List.append_nil _).symm

variable {t u : Registry F.noting}

theorem IsNoted.isIn
    (h : r.IsNoted t)
    {m : Made}
    (hm : m ∈ t.made) :
    m.IsIn t := by
  cases m with
  | graph g =>
      apply mem_graphIds.mp
      rw [h.graphIds]
      exact List.mem_append_right _
        (List.mem_filterMap.mpr ⟨_, hm, rfl⟩)
  | node n =>
      apply mem_nodeIds.mp
      rw [h.nodeIds]
      exact List.mem_append_right _
        (List.mem_filterMap.mpr ⟨_, hm, rfl⟩)
  | edge e =>
      apply mem_edgeIds.mp
      rw [h.edgeIds]
      exact List.mem_append_right _
        (List.mem_filterMap.mpr ⟨_, hm, rfl⟩)

/- What makes no entity leaves the notes right. -/
theorem IsNoted.of_same
    (h : r.IsNoted t)
    (hFactory : u.factory = t.factory)
    (hGraphs : u.graphs.size = t.graphs.size)
    (hNodes : u.nodes.size = t.nodes.size)
    (hEdges : u.edges.size = t.edges.size) :
    r.IsNoted u := by
  have hMade : u.made = t.made := by rw [made, made, hFactory]
  constructor
  · rw [hFactory, h.nextGraph, Registry.nextGraph, ← hGraphs]
    rfl
  · rw [hFactory, h.nextNode, Registry.nextNode, ← hNodes]
    rfl
  · rw [hFactory, h.nextEdge, Registry.nextEdge, ← hEdges]
    rfl
  · rw [hMade, ← h.graphIds, Registry.graphIds, hGraphs]
    rfl
  · rw [hMade, ← h.nodeIds, Registry.nodeIds, hNodes]
    rfl
  · rw [hMade, ← h.edgeIds, Registry.edgeIds, hEdges]
    rfl

theorem made_addGraph
    (h : r.IsNoted t)
    (graph : Graph)
    (parent : Option GraphId) :
    (t.addGraph graph parent).2.made =
      t.made ++ [.graph t.nextGraph] := by
  rw [← h.nextGraph]
  cases parent <;> rfl

theorem made_addNode
    (h : r.IsNoted t)
    (g : GraphId)
    (name : String)
    (attributes : AttributeTable) :
    (t.addNode g name attributes).2.made =
      t.made ++ [.node t.nextNode] := by
  rw [← h.nextNode]
  rfl

theorem made_addEdge
    (h : r.IsNoted t)
    (g : GraphId)
    (tail head : NodeId)
    (attributes : AttributeTable) :
    (t.addEdge g tail head attributes).2.made =
      t.made ++ [.edge t.nextEdge] := by
  rw [← h.nextEdge]
  rfl

theorem Step.isNoted
    (hStep : Step t u)
    (h : r.IsNoted t) :
    r.IsNoted u := by
  cases hStep with
  | addGraph graph parent =>
      have hMade := made_addGraph h graph parent
      constructor
      · cases parent <;>
          simp [Registry.addGraph, enterGraph, modifyGraph,
            Factory.noting, Notes.addGraph, Registry.nextGraph,
            h.nextGraph]
      · cases parent <;> exact h.nextNode
      · cases parent <;> exact h.nextEdge
      · simp [hMade, h.graphIds, Made.graph?]
      · simp [hMade, h.nodeIds, Made.node?]
      · simp [hMade, h.edgeIds, Made.edge?]
  | addNode g name attributes =>
      have hMade := made_addNode h g name attributes
      constructor
      · simp [Registry.addNode, modifyGraph, Factory.noting,
          Notes.addNode, Registry.nextGraph, h.nextGraph]
      · simp [Registry.addNode, Factory.noting, Notes.addNode,
          Registry.nextNode, modifyGraph, h.nextNode]
      · exact h.nextEdge
      · simp [hMade, h.graphIds, Made.graph?]
      · simp [hMade, h.nodeIds, Made.node?]
      · simp [hMade, h.edgeIds, Made.edge?]
  | addEdge g tail head attributes =>
      have hMade := made_addEdge h g tail head attributes
      constructor
      · simp [Registry.addEdge, modifyGraph, modifyNode,
          Factory.noting, Notes.addEdge, Registry.nextGraph,
          h.nextGraph]
      · simp [Registry.addEdge, modifyGraph, modifyNode,
          Factory.noting, Notes.addEdge, Registry.nextNode,
          h.nextNode]
      · simp [Registry.addEdge, modifyGraph, modifyNode,
          Factory.noting, Notes.addEdge, Registry.nextEdge,
          h.nextEdge]
      · simp [hMade, h.graphIds, Made.graph?]
      · simp [hMade, h.nodeIds, Made.node?]
      · simp [hMade, h.edgeIds, Made.edge?]
  | addMember | setGraph =>
      exact h.of_same rfl (by simp [Registry.addMember, modifyGraph])
        rfl rfl
  | setNode =>
      exact h.of_same rfl rfl (by simp [modifyNode]) rfl
  | setEdge =>
      exact h.of_same rfl rfl rfl (by simp [modifyEdge])
  | pushScope | popScope | diagnose =>
      exact h.of_same rfl rfl rfl rfl

theorem Steps.isNoted
    (hSteps : Steps t u)
    (h : r.IsNoted t) :
    r.IsNoted u := by
  induction hSteps with
  | refl => exact h
  | tail _ hStep ih => exact hStep.isNoted ih

end Registry

end DotLang
