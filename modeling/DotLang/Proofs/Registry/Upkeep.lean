import DotLang.Proofs.Registry.Growth
import DotLang.Proofs.Registry.Indexes

/-
  This file defines the steps by which a registry is worked on
  one entity at a time, with handles that are in use, and proves
  that its lists stay in step with each other.

  Unlike the changes that statements make, a step may add any
  name anywhere and mention any node in any graph.

  Key definitions include:
    * `Registry.Step`
    * `Registry.Steps`
    * `Registry.ListsNodes`
    * `Registry.ListsEdges`
    * `Registry.IsConsistent`

  Key theorems include:
    * `Registry.Step.isConsistent`
    * `Registry.Steps.isConsistent`
-/

------------------------------------------------------------
-- Steps
------------------------------------------------------------

namespace DotLang

namespace Registry

variable {F : Factory} {r s : Registry F}

/- One piece of work on a registry. -/
inductive Step : Registry F → Registry F → Prop where
| addGraph
    (r : Registry F)
    (graph : Graph)
    (parent : Option GraphId)
    (hBlank : graph.IsBlank)
    (hParent : ∀ g, parent = some g → r.HasGraph g) :
    Step r (r.addGraph graph parent).2
| addNode
    (r : Registry F)
    (g : GraphId)
    (name : String)
    (attributes : AttributeTable)
    (hg : r.HasGraph g) :
    Step r (r.addNode g name attributes).2
| addMember
    (r : Registry F)
    (g : GraphId)
    (n : NodeId)
    (hg : r.HasGraph g)
    (hn : r.HasNode n) :
    Step r (r.addMember g n)
| addEdge
    (r : Registry F)
    (g : GraphId)
    (tail head : NodeId)
    (attributes : AttributeTable)
    (hg : r.HasGraph g)
    (hTail : r.HasNode tail)
    (hHead : r.HasNode head) :
    Step r (r.addEdge g tail head attributes).2
| setGraph
    (r : Registry F)
    (g : GraphId)
    (change : Graph → Graph)
    (hg : r.HasGraph g)
    (hChange : Graph.SetsTables change) :
    Step r (r.modifyGraph g change)
| setNode
    (r : Registry F)
    (n : NodeId)
    (change : Node → Node)
    (hn : r.HasNode n)
    (hChange : Node.SetsTable change) :
    Step r (r.modifyNode n change)
| setEdge
    (r : Registry F)
    (e : EdgeId)
    (change : Edge → Edge)
    (he : r.HasEdge e)
    (hChange : Edge.SetsTable change) :
    Step r (r.modifyEdge e change)
| pushScope
    (r : Registry F)
    (g : GraphId)
    (hg : r.HasGraph g) :
    Step r (r.pushScope g)
| popScope
    (r : Registry F) :
    Step r r.popScope
| diagnose
    (r : Registry F)
    (diagnostics : List Diagnostic) :
    Step r { r with diagnostics := r.diagnostics ++ diagnostics }

/- Any number of steps. -/
def Steps : Registry F → Registry F → Prop :=
  Relation.ReflTransGen Step

namespace Steps

variable {r s t : Registry F}

theorem refl : Steps r r :=
  Relation.ReflTransGen.refl

theorem single
    (h : Step r s) :
    Steps r s :=
  Relation.ReflTransGen.single h

theorem tail
    (h : Steps r s)
    (hStep : Step s t) :
    Steps r t :=
  Relation.ReflTransGen.tail h hStep

theorem trans
    (h : Steps r s)
    (h' : Steps s t) :
    Steps r t :=
  Relation.ReflTransGen.trans h h'

end Steps

------------------------------------------------------------
-- Lists of Nodes
------------------------------------------------------------

/-
  The nodes that a graph owns are listed as they were made.  It
  mentions no node twice.  Indexes are in step with these lists.
-/
structure ListsNodes (r : Registry F) : Prop where
  isIndexed : r.IsIndexed
  hasOwner :
    ∀ {n : NodeId}, r.HasNode n → r.HasGraph (r.node n).owner
  nodes_eq :
    ∀ g : GraphId,
      (r.graph g).nodes =
        r.nodeIds.filter fun n => (r.node n).owner = g
  nodup_members : ∀ g : GraphId, (r.graph g).members.Nodup
  hasNode :
    ∀ {g : GraphId} {n : NodeId},
      n ∈ (r.graph g).members → r.HasNode n

namespace ListsNodes

variable {g : GraphId} {n : NodeId}

theorem mem_nodes
    (hNodes : r.ListsNodes) :
    n ∈ (r.graph g).nodes ↔ r.HasNode n ∧ (r.node n).owner = g := by
  rw [hNodes.nodes_eq, List.mem_filter, mem_nodeIds]
  simp

theorem of_sameNodes
    (hNodes : r.ListsNodes)
    (hGraphs : ∀ g, r.HasGraph g → s.HasGraph g)
    (hSame : SameNodes r s) :
    s.ListsNodes where
  isIndexed := hNodes.isIndexed.of_sameNodes hSame
  hasOwner hn := by
    rw [hSame.owner]
    exact hGraphs _ (hNodes.hasOwner ((hSame.hasNode _).mp hn))
  nodes_eq g := by
    rw [hSame.nodes, hSame.nodeIds, hNodes.nodes_eq]
    simp only [hSame.owner]
  nodup_members g := by
    rw [hSame.members]
    exact hNodes.nodup_members g
  hasNode hMem := by
    rw [hSame.members] at hMem
    exact (hSame.hasNode _).mpr (hNodes.hasNode hMem)

theorem addNode
    (hNodes : r.ListsNodes)
    (hg : r.HasGraph g)
    (name : String)
    (attributes : AttributeTable) :
    (r.addNode g name attributes).2.ListsNodes := by
  have hSame := sameTree_addNode (r := r) g name attributes
  have hHas := hasNode_addNode (r := r) g name attributes
  have hNode := node_addNode (r := r) (g := g) name attributes
  have hMembers :
      ∀ h,
        ((r.addNode g name attributes).2.graph h).members =
          (r.graph h).members :=
    view_graph_addNode g name attributes Graph.members
      fun _ _ _ => rfl
  constructor
  · exact hNodes.isIndexed.addNode hg name attributes
  · intro n hn
    rw [hSame.hasGraph, hNode]
    rcases (hHas n).mp hn with hn | rfl
    · rw [if_neg hn.ne_next]
      exact hNodes.hasOwner hn
    · rw [if_pos rfl]
      exact hg
  · intro h
    have hOld :
        (r.nodeIds.filter fun n =>
            ((r.addNode g name attributes).2.node n).owner = h) =
          (r.graph h).nodes := by
      rw [hNodes.nodes_eq]
      apply List.filter_congr
      intro n hn
      rw [hNode, if_neg (mem_nodeIds.mp hn).ne_next]
    rw [graph_addNode name attributes hg, nodeIds_addNode,
      List.filter_append, hOld, List.filter_singleton, hNode,
      if_pos rfl]
    by_cases hEq : h = g
    · simp [hEq]
    · simp [hEq, Ne.symm hEq]
  · intro h
    rw [hMembers]
    exact hNodes.nodup_members h
  · intro h n hMem
    rw [hMembers] at hMem
    exact (hHas n).mpr (.inl (hNodes.hasNode hMem))

theorem addMember
    (hNodes : r.ListsNodes)
    (hg : r.HasGraph g)
    (hn : r.HasNode n) :
    (r.addMember g n).ListsNodes := by
  have hSame := sameTree_addMember (r := r) g n
  constructor
  · exact hNodes.isIndexed.addMember hg n
  · intro m hm
    rw [hSame.hasGraph]
    exact hNodes.hasOwner hm
  · intro h
    rw [view_graph_addMember g n Graph.nodes fun _ _ _ => rfl]
    exact hNodes.nodes_eq h
  · exact hNodes.isIndexed.nodup_members_addMember hg n
      hNodes.nodup_members
  · intro h m hMem
    rcases (hNodes.isIndexed.mem_members_addMember hg).mp hMem with
      hMem | ⟨-, rfl⟩
    · exact hNodes.hasNode hMem
    · exact hn

end ListsNodes

------------------------------------------------------------
-- Lists of Edges
------------------------------------------------------------

/-
  The edges that a graph owns and those at a node are listed as
  they were made.
-/
structure ListsEdges (r : Registry F) : Prop where
  hasOwner :
    ∀ {e : EdgeId}, r.HasEdge e → r.HasGraph (r.edge e).owner
  hasTail :
    ∀ {e : EdgeId}, r.HasEdge e → r.HasNode (r.edge e).tail
  hasHead :
    ∀ {e : EdgeId}, r.HasEdge e → r.HasNode (r.edge e).head
  edges_eq :
    ∀ g : GraphId,
      (r.graph g).edges =
        r.edgeIds.filter fun e => (r.edge e).owner = g
  outEdges_eq :
    ∀ n : NodeId,
      (r.node n).outEdges =
        r.edgeIds.filter fun e => (r.edge e).tail = n
  inEdges_eq :
    ∀ n : NodeId,
      (r.node n).inEdges =
        r.edgeIds.filter fun e => (r.edge e).head = n
  directed :
    ∀ {e : EdgeId},
      r.HasEdge e →
        (r.edge e).directed = (r.graph (r.edge e).owner).directed

namespace ListsEdges

variable {g : GraphId} {n tail head : NodeId} {e : EdgeId}

theorem mem_edges
    (hEdges : r.ListsEdges) :
    e ∈ (r.graph g).edges ↔ r.HasEdge e ∧ (r.edge e).owner = g := by
  rw [hEdges.edges_eq, List.mem_filter, mem_edgeIds]
  simp

theorem mem_outEdges
    (hEdges : r.ListsEdges) :
    e ∈ (r.node n).outEdges ↔
      r.HasEdge e ∧ (r.edge e).tail = n := by
  rw [hEdges.outEdges_eq, List.mem_filter, mem_edgeIds]
  simp

theorem of_sameEdges
    (hEdges : r.ListsEdges)
    (hGraphs : ∀ g, r.HasGraph g → s.HasGraph g)
    (hNodes : ∀ n, r.HasNode n → s.HasNode n)
    (hDirected :
      ∀ g,
        r.HasGraph g → (s.graph g).directed = (r.graph g).directed)
    (hSame : SameEdges r s)
    (hIn : ∀ n, (s.node n).inEdges = (r.node n).inEdges) :
    s.ListsEdges where
  hasOwner he := by
    rw [hSame.owner]
    exact hGraphs _ (hEdges.hasOwner ((hSame.hasEdge _).mp he))
  hasTail he := by
    rw [hSame.tail]
    exact hNodes _ (hEdges.hasTail ((hSame.hasEdge _).mp he))
  hasHead he := by
    rw [hSame.head]
    exact hNodes _ (hEdges.hasHead ((hSame.hasEdge _).mp he))
  edges_eq g := by
    rw [hSame.edges, hSame.edgeIds, hEdges.edges_eq]
    simp only [hSame.owner]
  outEdges_eq n := by
    rw [hSame.outEdges, hSame.edgeIds, hEdges.outEdges_eq]
    simp only [hSame.tail]
  inEdges_eq n := by
    rw [hIn, hSame.edgeIds, hEdges.inEdges_eq]
    simp only [hSame.head]
  directed he := by
    rw [hSame.hasEdge] at he
    rw [hSame.directed, hSame.owner,
      hDirected _ (hEdges.hasOwner he)]
    exact hEdges.directed he

theorem addEdge
    (hEdges : r.ListsEdges)
    (hg : r.HasGraph g)
    (hTail : r.HasNode tail)
    (hHead : r.HasNode head)
    (attributes : AttributeTable) :
    (r.addEdge g tail head attributes).2.ListsEdges := by
  have hTree := sameTree_addEdge (r := r) g tail head attributes
  have hNodes := sameNodes_addEdge (r := r) g tail head attributes
  have hHas := hasEdge_addEdge (r := r) g tail head attributes
  have hEdge :
      ∀ e,
        (r.addEdge g tail head attributes).2.edge e =
          if e = r.nextEdge then
            { tail := tail
              head := head
              directed := (r.graph g).directed
              owner := g
              attributes := attributes }
          else
            r.edge e :=
    edge_addEdge g tail head attributes
  constructor
  · intro e he
    rw [hTree.hasGraph, hEdge]
    rcases (hHas e).mp he with he | rfl
    · rw [if_neg he.ne_next]
      exact hEdges.hasOwner he
    · rw [if_pos rfl]
      exact hg
  · intro e he
    rw [hNodes.hasNode, hEdge]
    rcases (hHas e).mp he with he | rfl
    · rw [if_neg he.ne_next]
      exact hEdges.hasTail he
    · rw [if_pos rfl]
      exact hTail
  · intro e he
    rw [hNodes.hasNode, hEdge]
    rcases (hHas e).mp he with he | rfl
    · rw [if_neg he.ne_next]
      exact hEdges.hasHead he
    · rw [if_pos rfl]
      exact hHead
  · intro h
    rw [filter_addEdge g tail head attributes Edge.owner,
      ← hEdges.edges_eq,
      graph_addEdge attributes hg]
    by_cases hEq : h = g
    · simp [hEq]
    · simp [hEq]
  · intro n
    rw [filter_addEdge g tail head attributes Edge.tail,
      ← hEdges.outEdges_eq,
      node_addEdge attributes hTail hHead]
    by_cases hEq : n = tail
    · simp [hEq]
    · simp [hEq]
  · intro n
    rw [filter_addEdge g tail head attributes Edge.head,
      ← hEdges.inEdges_eq,
      node_addEdge attributes hTail hHead]
    by_cases hEq : n = head
    · simp [hEq]
    · simp [hEq]
  · intro e he
    rw [hTree.directed, hEdge]
    rcases (hHas e).mp he with he | rfl
    · rw [if_neg he.ne_next]
      exact hEdges.directed he
    · rw [if_pos rfl]

end ListsEdges

------------------------------------------------------------
-- Consistent Registries
------------------------------------------------------------

/- There is as much data beside entities as there are entities. -/
structure CarriesData (r : Registry F) : Prop where
  graphs : r.graphData.size = r.graphs.size
  nodes : r.nodeData.size = r.nodes.size
  edges : r.edgeData.size = r.edges.size

/- All lists in a registry tell the same. -/
structure IsConsistent (r : Registry F) : Prop where
  isForest : r.IsForest
  listsNodes : r.ListsNodes
  listsEdges : r.ListsEdges
  carriesData : r.CarriesData
  scope : ∀ g ∈ r.scope, r.HasGraph g

theorem IsConsistent.isIndexed
    (h : r.IsConsistent) :
    r.IsIndexed :=
  h.listsNodes.isIndexed

theorem isConsistent_empty
    (factory : F.State)
    (options : Options) :
    (empty factory options : Registry F).IsConsistent where
  isForest :=
    { parent_lt := nofun
      children_eq := fun _ => rfl
      roots_eq := rfl }
  listsNodes :=
    { isIndexed := isIndexed_empty factory options
      hasOwner := nofun
      nodes_eq := fun _ => rfl
      nodup_members := fun _ => List.nodup_nil
      hasNode := nofun }
  listsEdges :=
    { hasOwner := nofun
      hasTail := nofun
      hasHead := nofun
      edges_eq := fun _ => rfl
      outEdges_eq := fun _ => rfl
      inEdges_eq := fun _ => rfl
      directed := nofun }
  carriesData := ⟨rfl, rfl, rfl⟩
  scope := nofun

namespace IsConsistent

variable {g : GraphId} {n tail head : NodeId} {e : EdgeId}

/- What keeps the shape of a registry keeps its lists. -/
theorem of_sameShape
    (h : r.IsConsistent)
    (hSame : SameShape r s)
    (hIn : ∀ n, (s.node n).inEdges = (r.node n).inEdges)
    (hData : s.CarriesData)
    (hScope : ∀ g ∈ s.scope, r.HasGraph g) :
    s.IsConsistent where
  isForest := h.isForest.of_sameTree hSame.tree
  listsNodes :=
    h.listsNodes.of_sameNodes
      (fun g => (hSame.tree.hasGraph g).mpr) hSame.nodes
  listsEdges :=
    h.listsEdges.of_sameEdges
      (fun g => (hSame.tree.hasGraph g).mpr)
      (fun n => (hSame.nodes.hasNode n).mpr)
      (fun g _ => hSame.tree.directed g) hSame.edges hIn
  carriesData := hData
  scope g hg := (hSame.tree.hasGraph g).mpr (hScope g hg)

theorem addGraph
    (h : r.IsConsistent)
    {graph : Graph}
    {parent : Option GraphId}
    (hBlank : graph.IsBlank)
    (hParent : ∀ g, parent = some g → r.HasGraph g) :
    (r.addGraph graph parent).2.IsConsistent := by
  have hGraphs :
      ∀ g,
        r.HasGraph g → (r.addGraph graph parent).2.HasGraph g :=
    fun g hg => (hasGraph_addGraph g).mpr (.inl hg)
  have hSame : SameNodes r (r.addGraph graph parent).2 :=
    sameNodes_addGraph hParent hBlank
  refine
    { isForest :=
        h.isForest.addGraph_of_children hParent hBlank.children
      listsNodes := h.listsNodes.of_sameNodes hGraphs hSame
      listsEdges := ?_
      carriesData := ?_
      scope := ?_ }
  · exact h.listsEdges.of_sameEdges hGraphs
      (fun n => (hSame.hasNode n).mpr)
      (fun g hg =>
        view_addGraph_of_hasGraph Graph.directed hParent
          (fun _ _ => rfl) hg)
      (sameEdges_addGraph hParent hBlank)
      (fun n => by rw [node_addGraph])
  · rcases h.carriesData with ⟨hG, hN, hE⟩
    cases parent <;>
      exact ⟨by simp [Registry.addGraph, enterGraph, modifyGraph, hG],
        hN, hE⟩
  · intro g hg
    have hScope :
        (r.addGraph graph parent).2.scope = r.scope := by
      cases parent <;> rfl
    rw [hScope] at hg
    exact hGraphs g (h.scope g hg)

theorem addNode
    (h : r.IsConsistent)
    (hg : r.HasGraph g)
    (name : String)
    (attributes : AttributeTable) :
    (r.addNode g name attributes).2.IsConsistent := by
  have hTree := sameTree_addNode (r := r) g name attributes
  have hGraphs :
      ∀ h,
        r.HasGraph h →
          (r.addNode g name attributes).2.HasGraph h :=
    fun h => (hTree.hasGraph h).mpr
  refine
    { isForest := h.isForest.of_sameTree hTree
      listsNodes := h.listsNodes.addNode hg name attributes
      listsEdges := ?_
      carriesData := ?_
      scope := fun g hg => hGraphs g (h.scope g hg) }
  · refine h.listsEdges.of_sameEdges hGraphs
      (fun n hn => (hasNode_addNode g name attributes
        n).mpr (.inl hn))
      (fun g _ => hTree.directed g)
      (sameEdges_addNode g name attributes) ?_
    intro n
    rw [node_addNode]
    by_cases hNext : n = r.nextNode
    · rw [if_pos hNext, hNext, node_nextNode]
      rfl
    · rw [if_neg hNext]
  · rcases h.carriesData with ⟨hG, hN, hE⟩
    exact ⟨by simp [Registry.addNode, modifyGraph, hG],
      by simp [Registry.addNode, modifyGraph, hN], hE⟩

theorem addMember
    (h : r.IsConsistent)
    (hg : r.HasGraph g)
    (hn : r.HasNode n) :
    (r.addMember g n).IsConsistent := by
  have hTree := sameTree_addMember (r := r) g n
  have hGraphs :
      ∀ h, r.HasGraph h → (r.addMember g n).HasGraph h :=
    fun h => (hTree.hasGraph h).mpr
  refine
    { isForest := h.isForest.of_sameTree hTree
      listsNodes := h.listsNodes.addMember hg hn
      listsEdges := ?_
      carriesData := ?_
      scope := fun g hg => hGraphs g (h.scope g hg) }
  · exact h.listsEdges.of_sameEdges hGraphs (fun _ hn => hn)
      (fun g _ => hTree.directed g) (sameEdges_addMember g n)
      (fun _ => rfl)
  · rcases h.carriesData with ⟨hG, hN, hE⟩
    exact ⟨by simp [Registry.addMember, modifyGraph, hG], hN, hE⟩

theorem addEdge
    (h : r.IsConsistent)
    (hg : r.HasGraph g)
    (hTail : r.HasNode tail)
    (hHead : r.HasNode head)
    (attributes : AttributeTable) :
    (r.addEdge g tail head attributes).2.IsConsistent := by
  have hTree := sameTree_addEdge (r := r) g tail head attributes
  have hGraphs :
      ∀ h,
        r.HasGraph h →
          (r.addEdge g tail head attributes).2.HasGraph h :=
    fun h => (hTree.hasGraph h).mpr
  refine
    { isForest := h.isForest.of_sameTree hTree
      listsNodes :=
        h.listsNodes.of_sameNodes hGraphs
          (sameNodes_addEdge g tail head attributes)
      listsEdges := h.listsEdges.addEdge hg hTail hHead attributes
      carriesData := ?_
      scope := fun g hg => hGraphs g (h.scope g hg) }
  rcases h.carriesData with ⟨hG, hN, hE⟩
  exact ⟨by simp [Registry.addEdge, modifyGraph, modifyNode, hG],
    by simp [Registry.addEdge, modifyGraph, modifyNode, hN],
    by simp [Registry.addEdge, modifyGraph, modifyNode, hE]⟩

end IsConsistent

------------------------------------------------------------
-- Consistency Through Steps
------------------------------------------------------------

theorem Step.isConsistent
    (hStep : Step r s)
    (h : r.IsConsistent) :
    s.IsConsistent := by
  rcases h.carriesData with ⟨hG, hN, hE⟩
  cases hStep with
  | addGraph graph parent hBlank hParent =>
      exact h.addGraph hBlank hParent
  | addNode g name attributes hg =>
      exact h.addNode hg name attributes
  | addMember g n hg hn => exact h.addMember hg hn
  | addEdge g tail head attributes hg hTail hHead =>
      exact h.addEdge hg hTail hHead attributes
  | setGraph g change hg hChange =>
      exact h.of_sameShape (sameShape_modifyGraph hChange g)
        (fun _ => rfl) ⟨by simp [modifyGraph, hG], hN, hE⟩ h.scope
  | setNode n change hn hChange =>
      exact h.of_sameShape (sameShape_modifyNode hChange n)
        (view_modifyNode Node.inEdges (fun x => by rw [hChange]) n)
        ⟨hG, by simp [modifyNode, hN], hE⟩ h.scope
  | setEdge e change he hChange =>
      exact h.of_sameShape (sameShape_modifyEdge hChange e)
        (fun _ => rfl) ⟨hG, hN, by simp [modifyEdge, hE]⟩ h.scope
  | pushScope g hg =>
      refine h.of_sameShape (sameShape_aside rfl rfl rfl rfl)
        (fun _ => rfl) ⟨hG, hN, hE⟩ ?_
      intro f hf
      rcases List.mem_cons.mp hf with rfl | hf
      · exact hg
      · exact h.scope f hf
  | popScope =>
      exact h.of_sameShape (sameShape_aside rfl rfl rfl rfl)
        (fun _ => rfl) ⟨hG, hN, hE⟩
        (fun g hg => h.scope g (List.mem_of_mem_tail hg))
  | diagnose diagnostics =>
      exact h.of_sameShape (sameShape_aside rfl rfl rfl rfl)
        (fun _ => rfl) ⟨hG, hN, hE⟩ h.scope

theorem Steps.isConsistent
    (hSteps : Steps r s)
    (h : r.IsConsistent) :
    s.IsConsistent := by
  induction hSteps with
  | refl => exact h
  | tail _ hStep ih => exact hStep.isConsistent ih

------------------------------------------------------------
-- Handles Through Steps
------------------------------------------------------------

/- What is in use stays in use. -/
theorem Step.hasGraph
    (hStep : Step r s)
    {g : GraphId}
    (hg : r.HasGraph g) :
    s.HasGraph g := by
  cases hStep with
  | addGraph => exact (hasGraph_addGraph g).mpr (.inl hg)
  | addNode h name attributes =>
      exact ((sameTree_addNode h name attributes).hasGraph g).mpr hg
  | addMember h n =>
      exact ((sameTree_addMember h n).hasGraph g).mpr hg
  | addEdge h tail head attributes =>
      exact ((sameTree_addEdge h tail head
        attributes).hasGraph g).mpr hg
  | setGraph h change _ hChange =>
      exact ((sameShape_modifyGraph hChange h).tree.hasGraph
        g).mpr hg
  | setNode | setEdge | pushScope | popScope | diagnose => exact hg

theorem Step.hasNode
    (hStep : Step r s)
    {n : NodeId}
    (hn : r.HasNode n) :
    s.HasNode n := by
  cases hStep with
  | addGraph =>
      rw [← mem_nodeIds, nodeIds_addGraph]
      exact mem_nodeIds.mpr hn
  | addNode g name attributes =>
      exact (hasNode_addNode g name attributes
        n).mpr (.inl hn)
  | addEdge g tail head attributes =>
      exact ((sameNodes_addEdge g tail head
        attributes).hasNode n).mpr hn
  | setNode m change _ hChange =>
      exact ((sameShape_modifyNode hChange m).nodes.hasNode
        n).mpr hn
  | addMember | setGraph | setEdge | pushScope | popScope
    | diagnose => exact hn

theorem Steps.hasGraph
    (hSteps : Steps r s)
    {g : GraphId}
    (hg : r.HasGraph g) :
    s.HasGraph g := by
  induction hSteps with
  | refl => exact hg
  | tail _ hStep ih => exact hStep.hasGraph ih

theorem Steps.hasNode
    (hSteps : Steps r s)
    {n : NodeId}
    (hn : r.HasNode n) :
    s.HasNode n := by
  induction hSteps with
  | refl => exact hn
  | tail _ hStep ih => exact hStep.hasNode ih

end Registry

end DotLang
