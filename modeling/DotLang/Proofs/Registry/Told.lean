import DotLang.Proofs.Registry.Deeds

/-
  This file proves that the tables of attributes in a registry
  stay as told through each thing that statements do.

  What statements do writes to tables, makes a graph or a node,
  or makes the edges between two neighbours.

  Key definitions include:
    * `Moment.Writes`
    * `Moment.Gains`

  Key theorems include:
    * `Moment.IsTold.write`
    * `Moment.IsTold.open`
    * `Moment.IsTold.declareNode`
    * `Moment.IsTold.connect`
-/

------------------------------------------------------------
-- Writing to Tables
------------------------------------------------------------

namespace DotLang

namespace Deed

/- A deed that does nothing to the tables of graphs. -/
def SparesGraphs : Deed → Prop
| opened _ => False
| setDefaults _ _ _ => False
| assigned _ _ => False
| _ => True

/- A deed that does nothing to the tables of nodes. -/
def SparesNodes : Deed → Prop
| nodeMade _ => False
| nodeSet _ _ => False
| _ => True

theorem SparesGraphs.leavesGraph
    {deeds : List Deed}
    (h : ∀ d ∈ deeds, d.SparesGraphs)
    (g : GraphId) :
    LeavesGraph deeds g := by
  constructor
  · apply List.flatMap_eq_nil_iff.mpr
    intro d hd
    have hSpares := h d hd
    cases d <;> first | rfl | exact hSpares.elim
  · intro kind
    apply List.flatMap_eq_nil_iff.mpr
    intro d hd
    have hSpares := h d hd
    cases d <;> first | rfl | exact hSpares.elim

theorem SparesNodes.pairsForNode
    {deeds : List Deed}
    (h : ∀ d ∈ deeds, d.SparesNodes)
    (n : NodeId) :
    deeds.flatMap (Deed.pairsForNode n) = [] := by
  apply List.flatMap_eq_nil_iff.mpr
  intro d hd
  have hSpares := h d hd
  cases d <;> first | rfl | exact hSpares.elim

end Deed

namespace Moment

open Registry

variable {F : Factory} {r s t : Registry F} {deeds more : List Deed}

/- The tables of graphs and of nodes are written to. -/
structure Writes
    (more : List Deed)
    (r s : Registry F) : Prop where
  graphs : WritesGraphs more r s
  nodes : WritesNodes more r s

theorem WritesGraphs.of_same
    (hDeeds : ∀ d ∈ more, d.SparesGraphs)
    (hHas : ∀ g, s.HasGraph g ↔ r.HasGraph g)
    (hDefaults :
      ∀ g kind,
        (s.graph g).defaults kind = (r.graph g).defaults kind)
    (hAttributes :
      ∀ g, (s.graph g).attributes = (r.graph g).attributes) :
    WritesGraphs more r s where
  opened g hMem := hDeeds _ hMem
  hasGraph := hHas
  leaves g _ := Deed.SparesGraphs.leavesGraph hDeeds g
  defaults g kind := by
    rw [(Deed.SparesGraphs.leavesGraph hDeeds g).2, hDefaults]
    rfl
  attributes g := by
    rw [(Deed.SparesGraphs.leavesGraph hDeeds g).1, hAttributes]
    rfl

theorem WritesNodes.of_same
    (hDeeds : ∀ d ∈ more, d.SparesNodes)
    (hHas : ∀ n, s.HasNode n ↔ r.HasNode n)
    (hOwner : ∀ n, (s.node n).owner = (r.node n).owner)
    (hAttributes :
      ∀ n, (s.node n).attributes = (r.node n).attributes) :
    WritesNodes more r s where
  nodeMade n hMem := hDeeds _ hMem
  hasNode := hHas
  owner := hOwner
  leaves n _ := Deed.SparesNodes.pairsForNode hDeeds n
  attributes n := by
    rw [Deed.SparesNodes.pairsForNode hDeeds, hAttributes]
    rfl

/- What is written to no table. -/
theorem writes_of_eq
    (hDeeds : ∀ d ∈ more, d.SparesGraphs ∧ d.SparesNodes)
    (hGraphs : s.graphs = r.graphs)
    (hNodes : s.nodes = r.nodes) :
    Writes more r s where
  graphs :=
    .of_same (fun d hd => (hDeeds d hd).1)
      (fun _ => by rw [HasGraph, HasGraph, hGraphs])
      (fun _ _ => by rw [graph, graph, hGraphs])
      (fun _ => by rw [graph, graph, hGraphs])
  nodes :=
    .of_same (fun d hd => (hDeeds d hd).2)
      (fun _ => by rw [HasNode, HasNode, hNodes])
      (fun _ => by rw [node, node, hNodes])
      (fun _ => by rw [node, node, hNodes])

theorem Writes.trans
    (h : Writes [] r s)
    (h' : Writes [] s t) :
    Writes [] r t where
  graphs :=
    .of_same nofun
      (fun g => (h'.graphs.hasGraph g).trans (h.graphs.hasGraph g))
      (fun g kind =>
        (h'.graphs.defaults g kind).trans (h.graphs.defaults g kind))
      (fun g =>
        (h'.graphs.attributes g).trans (h.graphs.attributes g))
  nodes :=
    .of_same nofun
      (fun n => (h'.nodes.hasNode n).trans (h.nodes.hasNode n))
      (fun n => (h'.nodes.owner n).trans (h.nodes.owner n))
      (fun n =>
        (h'.nodes.attributes n).trans (h.nodes.attributes n))

theorem Writes.mono
    (h : Writes [] r s)
    (hDeeds : ∀ d ∈ more, d.SparesGraphs ∧ d.SparesNodes) :
    Writes more r s where
  graphs :=
    .of_same (fun d hd => (hDeeds d hd).1) h.graphs.hasGraph
      h.graphs.defaults h.graphs.attributes
  nodes :=
    .of_same (fun d hd => (hDeeds d hd).2) h.nodes.hasNode
      h.nodes.owner h.nodes.attributes

theorem writes_addMember
    (scope : GraphId)
    (n : NodeId) :
    Writes [] r (r.addMember scope n) where
  graphs :=
    .of_same nofun (sameTree_addMember scope n).hasGraph
      (fun g kind =>
        view_graph_addMember scope n
          (fun graph => graph.defaults kind)
          (fun _ _ _ => by cases kind <;> rfl) g)
      (view_graph_addMember scope n Graph.attributes
        fun _ _ _ => rfl)
  nodes :=
    .of_same nofun (fun _ => .rfl) (fun _ => rfl) (fun _ => rfl)

theorem writes_setNode
    {n : NodeId}
    (hn : r.HasNode n)
    (attributes : List Attribute) :
    Writes [.nodeSet n attributes] r
      (r.modifyNode n (Node.setAttributes attributes)) where
  graphs :=
    .of_same (fun d hd => List.mem_singleton.mp hd ▸ trivial)
      (fun _ => .rfl) (fun _ _ => rfl) (fun _ => rfl)
  nodes :=
    { nodeMade := fun m hm => by simp at hm
      hasNode := (sameShape_setNode n attributes).nodes.hasNode
      owner := (sameShape_setNode n attributes).nodes.owner
      leaves := by
        intro m hm
        have hNe : n ≠ m := by
          rintro rfl
          exact hm hn
        simp [Deed.pairsForNode, hNe]
      attributes := by
        intro m
        rw [node_modifyNode hn, List.flatMap_singleton]
        by_cases hEq : m = n
        · rw [hEq, if_pos rfl, Deed.pairsForNode, if_pos rfl]
          rfl
        · rw [if_neg hEq, Deed.pairsForNode, if_neg (Ne.symm hEq)]
          rfl }

theorem writes_assign
    {scope : GraphId}
    (hScope : r.HasGraph scope)
    (attr : Attribute) :
    Writes [.assigned scope attr] r
      (r.modifyGraph scope (Graph.setAttributes [attr])) where
  graphs :=
    { opened := fun g hg => by simp at hg
      hasGraph := (sameShape_setGraph scope [attr]).tree.hasGraph
      leaves := by
        intro g hg
        have hNe : scope ≠ g := by
          rintro rfl
          exact hg hScope
        simp [LeavesGraph, Deed.pairsForGraph,
          Deed.pairsForDefaults, hNe]
      defaults := fun g kind =>
        view_modifyGraph (fun graph => graph.defaults kind)
          (fun _ => by cases kind <;> rfl) scope g
      attributes := by
        intro g
        rw [graph_modifyGraph hScope, List.flatMap_singleton]
        by_cases hEq : g = scope
        · rw [hEq, if_pos rfl, Deed.pairsForGraph, if_pos rfl]
          rfl
        · rw [if_neg hEq, Deed.pairsForGraph, if_neg (Ne.symm hEq)]
          rfl }
  nodes :=
    .of_same (fun d hd => List.mem_singleton.mp hd ▸ trivial)
      (fun _ => .rfl) (fun _ => rfl) (fun _ => rfl)

/- Defaults for graphs are attributes of their graph as well. -/
theorem graph_applyDefaults
    {b : Build F}
    {scope : GraphId}
    (hScope : b.registry.HasGraph scope)
    (kind : EntityKind)
    (attributes : List Attribute)
    (g : GraphId) :
    (b.applyDefaults scope kind attributes).registry.graph g =
      if g = scope then
        Graph.setDefaults kind attributes
          (if kind = .graph then
            (b.registry.graph scope).setAttributes attributes
          else
            b.registry.graph scope)
      else
        b.registry.graph g := by
  unfold Build.applyDefaults
  by_cases hKind : kind = .graph
  · have hScope' :
        (b.registry.modifyGraph scope
          (Graph.setAttributes attributes)).HasGraph scope :=
      (sameShape_setGraph scope attributes).tree.hasGraph scope
        |>.mpr hScope
    rw [if_pos hKind, if_pos hKind, Build.update, Build.update,
      graph_modifyGraph hScope', graph_modifyGraph hScope,
      graph_modifyGraph hScope, if_pos rfl]
    by_cases hEq : g = scope
    · rw [if_pos hEq, if_pos hEq]
    · rw [if_neg hEq, if_neg hEq, if_neg hEq]
  · rw [if_neg hKind, if_neg hKind, Build.update,
      graph_modifyGraph hScope]

theorem sameTree_applyDefaults
    (b : Build F)
    (scope : GraphId)
    (kind : EntityKind)
    (attributes : List Attribute) :
    SameTree b.registry
      (b.applyDefaults scope kind attributes).registry := by
  unfold Build.applyDefaults
  by_cases hKind : kind = .graph
  · rw [if_pos hKind]
    exact (sameShape_setGraph scope attributes).tree.trans
      (sameShape_setDefaults scope kind attributes).tree
  · rw [if_neg hKind]
    exact (sameShape_setDefaults scope kind attributes).tree

theorem nodes_applyDefaults
    (b : Build F)
    (scope : GraphId)
    (kind : EntityKind)
    (attributes : List Attribute) :
    (b.applyDefaults scope kind attributes).registry.nodes =
        b.registry.nodes ∧
      (b.applyDefaults scope kind attributes).registry.edges =
        b.registry.edges := by
  unfold Build.applyDefaults
  by_cases hKind : kind = .graph
  · rw [if_pos hKind]
    exact ⟨rfl, rfl⟩
  · rw [if_neg hKind]
    exact ⟨rfl, rfl⟩

theorem writes_applyDefaults
    {b : Build F}
    {scope : GraphId}
    (hScope : b.registry.HasGraph scope)
    (kind : EntityKind)
    (attributes : List Attribute) :
    Writes [.setDefaults scope kind attributes] b.registry
      (b.applyDefaults scope kind attributes).registry where
  graphs :=
    { opened := fun g hg => by simp at hg
      hasGraph :=
        (sameTree_applyDefaults b scope kind attributes).hasGraph
      leaves := by
        intro g hg
        have hNe : scope ≠ g := by
          rintro rfl
          exact hg hScope
        simp [LeavesGraph, Deed.pairsForGraph,
          Deed.pairsForDefaults, hNe]
      defaults := by
        intro g kind'
        rw [graph_applyDefaults hScope, List.flatMap_singleton,
          Deed.pairsForDefaults]
        by_cases hEq : g = scope
        · rw [if_pos hEq, hEq]
          cases kind <;> cases kind' <;> simp <;> rfl
        · rw [if_neg hEq, if_neg fun h => hEq h.1.symm]
          rfl
      attributes := by
        intro g
        rw [graph_applyDefaults hScope, List.flatMap_singleton,
          Deed.pairsForGraph]
        by_cases hEq : g = scope
        · rw [if_pos hEq, hEq]
          cases kind <;> simp <;> rfl
        · rw [if_neg hEq, if_neg fun h => hEq h.1.symm]
          rfl }
  nodes := by
    have hNodes := (nodes_applyDefaults b scope kind attributes).1
    exact .of_same (fun d hd => List.mem_singleton.mp hd ▸ trivial)
      (fun _ => by rw [HasNode, HasNode, hNodes])
      (fun _ => by rw [node, node, hNodes])
      (fun _ => by rw [node, node, hNodes])

------------------------------------------------------------
-- Single Deeds
------------------------------------------------------------

section Deeds

variable {IsGood : Value → Prop}

/- What is written is as told, if no edge is made. -/
theorem IsTold.write
    (h : IsTold ⟨r, deeds⟩)
    (hBuilt : r.IsBuilt IsGood)
    (hChanges : Changes IsGood r s)
    (hWrites : Writes more r s)
    (hEdges : s.edges = r.edges)
    (hNone : ∀ c, .connected c ∉ more) :
    IsTold ⟨s, deeds ++ more⟩ :=
  have hForest := hBuilt.isForest
  have hForest' := (hChanges.isBuilt hBuilt).isForest
  have hGrows := hChanges.grows
  { graphs := h.graphs.extend hForest hForest' hGrows hWrites.graphs
    nodes :=
      h.nodes.extend hForest hForest' hGrows hBuilt.isScoped
        hWrites.nodes
    edges := h.edges.extend hForest hForest' hGrows hEdges hNone }

theorem IsTold.quiet
    (h : IsTold ⟨r, deeds⟩)
    (hBuilt : r.IsBuilt IsGood)
    (hChanges : Changes IsGood r s)
    (hWrites : Writes [] r s)
    (hEdges : s.edges = r.edges) :
    IsTold ⟨s, deeds⟩ := by
  have hTold := h.write hBuilt hChanges hWrites hEdges nofun
  rwa [List.append_nil] at hTold

/- What is done to neither graphs, nodes nor edges tells nothing. -/
theorem IsTold.aside
    (h : IsTold ⟨r, deeds⟩)
    (hBuilt : r.IsBuilt IsGood)
    (hGraphs : s.graphs = r.graphs)
    (hNodes : s.nodes = r.nodes)
    (hEdges : s.edges = r.edges)
    (hRoots : s.roots = r.roots) :
    IsTold ⟨s, deeds⟩ :=
  h.quiet hBuilt (Build.aside_changes hGraphs hNodes hEdges hRoots)
    (writes_of_eq nofun hGraphs hNodes) hEdges

theorem IsTold.open
    (h : IsTold ⟨r, deeds⟩)
    (hBuilt : r.IsBuilt IsGood)
    {graph : Graph}
    {parent : Option GraphId}
    (hMay : r.MayAdd graph parent)
    (hStarts : StartsAs r graph parent) :
    IsTold
      ⟨(r.addGraph graph parent).2,
        deeds ++ [.opened r.nextGraph]⟩ :=
  have hForest := hBuilt.isForest
  have hForest' := hForest.addGraph hMay
  have hGrows : Grows r (r.addGraph graph parent).2 :=
    grows_addGraph hMay.hasParent
  have hSame :=
    sameNodes_addGraph hMay.hasParent hMay.isBlank
  { graphs := h.graphs.open hForest hMay hStarts
    nodes :=
      h.nodes.extend hForest hForest' hGrows hBuilt.isScoped
        (.of_same (fun d hd => List.mem_singleton.mp hd ▸ trivial)
          hSame.hasNode hSame.owner fun n => by rw [node_addGraph])
    edges :=
      h.edges.extend hForest hForest' hGrows
        (by cases parent <;> rfl) (fun c hc => by simp at hc) }

theorem IsTold.declareNode
    (h : IsTold ⟨r, deeds⟩)
    (hBuilt : r.IsBuilt IsGood)
    {scope : GraphId}
    (hScope : r.HasGraph scope)
    (name : String) :
    IsTold
      ⟨r.declareNode scope name, deeds ++ [.nodeMade r.nextNode]⟩ :=
  have hForest := hBuilt.isForest
  have hSame := sameTree_declareNode scope name
  have hForest' := hForest.of_sameTree hSame
  have hGrows := grows_declareNode hScope name
  have hView :
      ∀ {β : Type} (view : Graph → β),
        (∀ (graph : Graph) (nodes : List NodeId)
            (nodeIndex : Std.ExtTreeMap String NodeId),
          view
              { graph with
                nodes := nodes
                nodeIndex := nodeIndex } =
            view graph) →
        (∀ (graph : Graph) (members : List NodeId)
            (memberSet : Std.ExtTreeSet NodeId),
          view
              { graph with
                members := members
                memberSet := memberSet } =
            view graph) →
        ∀ g,
          view ((r.declareNode scope name).graph g) =
            view (r.graph g) :=
    fun view hNodes hMembers g =>
      (view_graph_addMember scope _ view hMembers g).trans
        (view_graph_addNode scope name _ view hNodes g)
  { graphs :=
      h.graphs.extend hForest hForest' hGrows
        (.of_same (fun d hd => List.mem_singleton.mp hd ▸ trivial)
          hSame.hasGraph
          (fun g kind =>
            hView (fun graph => graph.defaults kind)
              (fun _ _ _ => by cases kind <;> rfl)
              (fun _ _ _ => by cases kind <;> rfl) g)
          (hView Graph.attributes (fun _ _ _ => rfl)
            fun _ _ _ => rfl))
    nodes :=
      h.nodes.make h.graphs hForest hBuilt.isScoped hScope name
    edges :=
      h.edges.extend hForest hForest' hGrows rfl
        (fun c hc => by simp at hc) }

end Deeds

------------------------------------------------------------
-- Edges of a Statement
------------------------------------------------------------

/-
  Edges are made in one graph with one table, unless the graph is
  strict, and nothing else is made or written to.
-/
structure Gains
    (scope : GraphId)
    (table : AttributeTable)
    (r s : Registry F) : Prop where
  writes : Writes [] r s
  keeps : KeepsEdges r s
  owner :
    ∀ {e},
      ¬ r.HasEdge e → s.HasEdge e → (s.edge e).owner = scope
  attributes :
    ∀ {e},
      ¬ r.HasEdge e →
        s.HasEdge e →
        (r.graph scope).strict = false →
        (s.edge e).attributes = table

variable {scope : GraphId} {table : AttributeTable}

theorem Gains.refl
    (r : Registry F) :
    Gains scope table r r where
  writes := writes_of_eq nofun rfl rfl
  keeps := .of_eq rfl
  owner hNew he := absurd he hNew
  attributes hNew he := absurd he hNew

theorem Gains.trans
    (hGrows : Grows r s)
    (hLinked : r.IsLinked)
    (hScope : r.HasGraph scope)
    (h : Gains scope table r s)
    (h' : Gains scope table s t) :
    Gains scope table r t where
  writes := h.writes.trans h'.writes
  keeps := .trans hGrows hLinked h.keeps h'.keeps
  owner {e} hNew he := by
    by_cases hs : s.HasEdge e
    · rw [h'.keeps.owner hs]
      exact h.owner hNew hs
    · exact h'.owner hs he
  attributes {e} hNew he hPlain := by
    have hPlain' : (s.graph scope).strict = false := by
      rw [hGrows.strict hScope]
      exact hPlain
    by_cases hs : s.HasEdge e
    · have hOwner := h.owner hNew hs
      rw [h'.keeps.attributes hs (by rwa [hOwner])]
      exact h.attributes hNew hs hPlain
    · exact h'.attributes hs he hPlain'

theorem gains_addEdge
    (scope : GraphId)
    (tail head : NodeId)
    (table : AttributeTable) :
    Gains scope table r (r.addEdge scope tail head table).2 where
  writes :=
    { graphs :=
        .of_same nofun
          (sameTree_addEdge scope tail head table).hasGraph
          (fun g kind =>
            view_graph_addEdge scope tail head table
              (fun graph => graph.defaults kind)
              (fun _ _ => by cases kind <;> rfl) g)
          (view_graph_addEdge scope tail head table Graph.attributes
            fun _ _ => rfl)
      nodes :=
        .of_same nofun
          (sameNodes_addEdge scope tail head table).hasNode
          (sameNodes_addEdge scope tail head table).owner
          (view_node_addEdge scope tail head table Node.attributes
            (fun _ _ => rfl) fun _ _ => rfl) }
  keeps :=
    { size_le := by simp [addEdge, modifyGraph, modifyNode]
      owner := fun he => by rw [edge_addEdge, if_neg he.ne_next]
      attributes := fun he _ => by
        rw [edge_addEdge, if_neg he.ne_next] }
  owner {e} hNew he := by
    rcases (hasEdge_addEdge scope tail head table e).mp he with
      he | rfl
    · exact absurd he hNew
    · rw [edge_addEdge, if_pos rfl]
  attributes {e} hNew he _ := by
    rcases (hasEdge_addEdge scope tail head table e).mp he with
      he | rfl
    · exact absurd he hNew
    · rw [edge_addEdge, if_pos rfl]

/- An edge of a strict graph may be written to. -/
theorem gains_setEdge
    {e : EdgeId}
    (he : r.HasEdge e)
    (hStrict : (r.graph (r.edge e).owner).strict = true)
    (attributes : List Attribute) :
    Gains scope table r
      (r.modifyEdge e (Edge.setAttributes attributes)) where
  writes := writes_of_eq nofun rfl rfl
  keeps :=
    { size_le := by simp [modifyEdge]
      owner := fun _ => (sameShape_setEdge e attributes).edges.owner _
      attributes := by
        intro d hd hPlain
        have hNe : d ≠ e := by
          rintro rfl
          rw [hStrict] at hPlain
          cases hPlain
        rw [edge_modifyEdge he, if_neg hNe] }
  owner {d} hNew hd :=
    absurd (((sameShape_setEdge e attributes).edges.hasEdge d).mp hd)
      hNew
  attributes {d} hNew hd :=
    absurd (((sameShape_setEdge e attributes).edges.hasEdge d).mp hd)
      hNew

section Connecting

variable {IsGood : Value → Prop} {b : Build F}

/- An edge that is found for members of a strict graph is strict. -/
theorem strict_of_findEdge?_eq_some
    (hBuilt : r.IsBuilt IsGood)
    {tail head : NodeId}
    {e : EdgeId}
    (hStrict : (r.graph scope).strict = true)
    (hTail : tail ∈ (r.graph scope).members)
    (hHead : head ∈ (r.graph scope).members)
    (hFind : r.findEdge? tail head = some e) :
    r.HasEdge e ∧ (r.graph (r.edge e).owner).strict = true := by
  -- graphs that mention one node are in one tree
  have hNested :
      ∀ {n : NodeId} {g : GraphId},
        n ∈ (r.graph g).members →
          (r.graph (r.node n).owner).strict =
            (r.graph g).strict := by
    intro n g hMem
    have hOwner :=
      hBuilt.isScoped.hasOwner (hBuilt.isScoped.hasNode hMem)
    rcases hBuilt.isScoped.nested hMem with hOut | hIn
    · exact (hBuilt.isUniform.eq_of_mem_lineage hBuilt.isForest
        (hasGraph_of_mem_members hMem) hOut).2
    · exact (hBuilt.isUniform.eq_of_mem_lineage hBuilt.isForest
        hOwner hIn).2.symm
  have hEnd :
      ∀ {n : NodeId},
        n ∈ (r.graph scope).members →
          e ∈ (r.node n).outEdges →
          r.HasEdge e ∧
            (r.graph (r.edge e).owner).strict = true := by
    intro n hMem hOut
    rcases hBuilt.isLinked.mem_outEdges.mp hOut with ⟨he, hEq⟩
    have hOwner := hNested (hBuilt.isLinked.tail_mem he)
    rw [hEq] at hOwner
    exact ⟨he, by rw [← hOwner, hNested hMem, hStrict]⟩
  rcases mem_of_findEdge?_eq_some hFind with hOut | hOut
  · exact hEnd hTail hOut
  · exact hEnd hHead hOut

theorem gains_connectPair
    (hBuilt : b.registry.IsBuilt IsGood)
    {tail head : NodeId}
    (hTail : tail ∈ (b.registry.graph scope).members)
    (hHead : head ∈ (b.registry.graph scope).members) :
    Gains scope table b.registry
      (b.connectPair scope table tail head).registry := by
  rcases Build.connectPair_cases b scope table tail head with
    ⟨e, hStrict, hFind, hConnect⟩ | ⟨-, hConnect⟩
  · have he := strict_of_findEdge?_eq_some hBuilt hStrict hTail
      hHead hFind
    rw [hConnect]
    exact gains_setEdge he.1 he.2 table.entries
  · rw [hConnect]
    exact gains_addEdge scope tail head table

theorem gains_connect
    (hBuilt : b.registry.IsBuilt IsGood)
    (hPlain : ∀ text, IsGood (.plain text))
    (hScope : b.registry.HasGraph scope)
    (hTable : table.IsMap IsGood)
    {tails heads : Build.Ends}
    (hTails :
      ∀ n ∈ tails.nodes, n ∈ (b.registry.graph scope).members)
    (hHeads :
      ∀ n ∈ heads.nodes, n ∈ (b.registry.graph scope).members) :
    Gains scope
      (table.setAll
        (portPairs "tailport" tails.port ++
          portPairs "headport" heads.port))
      b.registry
      (b.connect scope table tails heads).registry := by
  have hTable' :=
    Build.isMap_portedTable hPlain hTable tails heads
  rw [AttributeTable.setAll_append, ← withPort_eq, ← withPort_eq]
  -- what is gained while pairs are connected one after the other
  let Fine (b' : Build F) : Prop :=
    Changes IsGood b.registry b'.registry ∧
      Gains scope (Build.portedTable table tails heads)
        b.registry b'.registry
  suffices hFine :
      Fine (b.connect scope table tails heads) from hFine.2
  refine Build.connect_induct (motive := Fine) ⟨.refl, .refl _⟩ ?_
  rintro b' ⟨hChanges, hGains⟩ tail hTail head hHead
  have hGrows := hChanges.grows
  have hTail' := hGrows.members hScope (hTails tail hTail)
  have hHead' := hGrows.members hScope (hHeads head hHead)
  refine ⟨hChanges.trans (Build.connectPair_changes
    (hGrows.graph hScope) hTable' hTail' hHead'), ?_⟩
  exact hGains.trans hGrows hBuilt.isLinked hScope
    (gains_connectPair (hChanges.isBuilt hBuilt) hTail' hHead')

/- The edges of a statement are as told. -/
theorem IsTold.connect
    {deeds : List Deed}
    (h : IsTold ⟨b.registry, deeds⟩)
    (hBuilt : b.registry.IsBuilt IsGood)
    (hPlain : ∀ text, IsGood (.plain text))
    (hScope : b.registry.HasGraph scope)
    (hTable : table.IsMap IsGood)
    {begun : Nat}
    (hBegun : begun ≤ deeds.length)
    {attributes : List Attribute}
    (hStarts :
      table =
        .ofList
          (pairsInForce .edge (b.registry.lineage scope)
              (deeds.take begun) ++
            attributes))
    {tails heads : Build.Ends}
    (hTails :
      ∀ n ∈ tails.nodes, n ∈ (b.registry.graph scope).members)
    (hHeads :
      ∀ n ∈ heads.nodes, n ∈ (b.registry.graph scope).members) :
    IsTold
      ⟨(b.connect scope table tails heads).registry,
        deeds ++
          [.connected
            { scope := scope
              begun := begun
              attributes := attributes
              tailPort := tails.port
              headPort := heads.port
              first := b.registry.edges.size
              last :=
                (b.connect scope table tails
                  heads).registry.edges.size }]⟩ := by
  have hChanges := Build.connect_changes hPlain hScope hTable hTails
    hHeads
  have hGains := gains_connect hBuilt hPlain hScope hTable hTails
    hHeads
  have hForest := hBuilt.isForest
  have hForest' := (hChanges.isBuilt hBuilt).isForest
  have hGrows := hChanges.grows
  have hWrites :
      ∀ c : Connection,
        Writes [.connected c] b.registry
          (b.connect scope table tails heads).registry :=
    fun c => hGains.writes.mono fun d hd =>
      List.mem_singleton.mp hd ▸ ⟨trivial, trivial⟩
  refine ⟨h.graphs.extend hForest hForest' hGrows
      (hWrites _).graphs,
    h.nodes.extend hForest hForest' hGrows hBuilt.isScoped
      (hWrites _).nodes,
    h.edges.connect hForest hForest' hGrows hGains.keeps hScope
      hBegun rfl rfl ?_ ?_⟩
  · rintro e ⟨hFirst, hLast⟩
    exact hGains.owner (Nat.not_lt.mpr hFirst) hLast
  · rintro e ⟨hFirst, hLast⟩ hLoose
    rw [hGrows.strict hScope] at hLoose
    rw [hGains.attributes (Nat.not_lt.mpr hFirst) hLast hLoose,
      hStarts, ← AttributeTable.ofList_append, Connection.pairs]
    simp only [List.append_assoc]

end Connecting

end Moment

end DotLang
