import DotLang.Proofs.Registry.Built

/-
  This file defines the registries that can be reached by reading
  texts and by adding and changing entities one by one, and
  proves what holds for the tables of attributes in them.

  Entities that are added by hand need not keep the rules of
  scope.  The handles that are given have to be in use.

  Key definitions include:
    * `Graph.IsFresh`
    * `Registry.Reachable`

  Key theorems include:
    * `Registry.IsTabled.load`
    * `Registry.Reachable.isTabled`
-/

------------------------------------------------------------
-- Reachable Registries
------------------------------------------------------------

namespace DotLang

/- A graph that nothing was added to, with tables of its own. -/
structure Graph.IsFresh (graph : Graph) : Prop where
  nodes : graph.nodes = []
  members : graph.members = []
  edges : graph.edges = []
  children : graph.children = []
  hasMaps : graph.HasMaps fun _ => True

namespace Registry

variable {F : Factory}

/- The registries that can be reached. -/
inductive Reachable : Registry F → Prop where
| empty
    (factory : F.State)
    (options : Options) :
    Reachable (.empty factory options)
| load
    {r : Registry F}
    (text : String)
    (hBefore : Reachable r) :
    Reachable (r.load text).registry
| addGraph
    {r : Registry F}
    {graph : Graph}
    {parent : Option GraphId}
    (hFresh : graph.IsFresh)
    (hParent : ∀ g, parent = some g → r.HasGraph g)
    (hBefore : Reachable r) :
    Reachable (r.addGraph graph parent).2
| addNode
    {r : Registry F}
    {g : GraphId}
    {attributes : AttributeTable}
    (name : String)
    (hg : r.HasGraph g)
    (hTable : attributes.names.Nodup)
    (hBefore : Reachable r) :
    Reachable (r.addNode g name attributes).2
| addMember
    {r : Registry F}
    {g : GraphId}
    {n : NodeId}
    (hg : r.HasGraph g)
    (hn : r.HasNode n)
    (hBefore : Reachable r) :
    Reachable (r.addMember g n)
| addEdge
    {r : Registry F}
    {g : GraphId}
    {tail head : NodeId}
    {attributes : AttributeTable}
    (hg : r.HasGraph g)
    (hTail : r.HasNode tail)
    (hHead : r.HasNode head)
    (hTable : attributes.names.Nodup)
    (hBefore : Reachable r) :
    Reachable (r.addEdge g tail head attributes).2
| changeGraph
    {r : Registry F}
    {g : GraphId}
    {attributes graphs nodes edges : AttributeTable}
    (hg : r.HasGraph g)
    (hAttributes : attributes.names.Nodup)
    (hGraphs : graphs.names.Nodup)
    (hNodes : nodes.names.Nodup)
    (hEdges : edges.names.Nodup)
    (hBefore : Reachable r) :
    Reachable
      (r.modifyGraph g fun graph =>
        { graph with
          attributes := attributes
          graphDefaults := graphs
          nodeDefaults := nodes
          edgeDefaults := edges })
| changeNode
    {r : Registry F}
    {n : NodeId}
    {attributes : AttributeTable}
    (hn : r.HasNode n)
    (hTable : attributes.names.Nodup)
    (hBefore : Reachable r) :
    Reachable
      (r.modifyNode n fun node =>
        { node with attributes := attributes })
| changeEdge
    {r : Registry F}
    {e : EdgeId}
    {attributes : AttributeTable}
    (he : r.HasEdge e)
    (hTable : attributes.names.Nodup)
    (hBefore : Reachable r) :
    Reachable
      (r.modifyEdge e fun edge =>
        { edge with attributes := attributes })
| aside
    {r s : Registry F}
    (hGraphs : s.graphs = r.graphs)
    (hNodes : s.nodes = r.nodes)
    (hEdges : s.edges = r.edges)
    (hRoots : s.roots = r.roots)
    (hBefore : Reachable r) :
    Reachable s

end Registry

------------------------------------------------------------
-- Tables While Statements Run
------------------------------------------------------------

open Registry

namespace Build

variable {F : Factory} {b : Build F}

theorem isTabled_resolveNode
    (h : b.registry.IsTabled fun _ => True)
    (scope : GraphId)
    (name : String) :
    (b.resolveNode scope name).2.registry.IsTabled
      fun _ => True := by
  cases hFind : b.registry.resolveNode? scope name with
  | none =>
      rw [resolveNode_of_none hFind]
      exact (h.addNode scope name
        (h.graph scope).nodeDefaults).addMember scope _
  | some n =>
      rw [resolveNode_of_some hFind]
      exact h.addMember scope n

theorem isTabled_openSubgraph
    (h : b.registry.IsTabled fun _ => True)
    (scope : GraphId)
    (name : String) :
    (b.openSubgraph scope name).2.registry.IsTabled
      fun _ => True := by
  rcases openSubgraph_cases b scope name with
    ⟨g, -, -, hOpen⟩ | ⟨-, hOpen⟩
  · rw [hOpen]
    exact h
  · rw [hOpen]
    exact h.addGraph (some scope)
      ((h.graph scope).newSubgraph name)

theorem isTabled_adoptMembers
    (h : b.registry.IsTabled fun _ => True)
    (scope : GraphId)
    (nodes : List NodeId) :
    (b.adoptMembers scope nodes).registry.IsTabled
      fun _ => True := by
  refine List.foldlRecOn
    (motive := fun b' : Build F => b'.registry.IsTabled fun _ => True)
    nodes _ h ?_
  intro b' h' n _
  exact h'.addMember scope n

theorem isTabled_connectPair
    (h : b.registry.IsTabled fun _ => True)
    (scope : GraphId)
    {attributes : AttributeTable}
    (hTable : attributes.IsMap fun _ => True)
    (tail head : NodeId) :
    (b.connectPair scope attributes tail head).registry.IsTabled
      fun _ => True := by
  rcases connectPair_cases b scope attributes tail head with
    ⟨e, -, -, hConnect⟩ | ⟨-, hConnect⟩
  · rw [hConnect]
    exact (Change.setEdge _ e attributes.entries
      fun _ _ => trivial).isTabled h
  · rw [hConnect]
    exact h.addEdge scope tail head hTable

theorem isTabled_connect
    (h : b.registry.IsTabled fun _ => True)
    (scope : GraphId)
    {attributes : AttributeTable}
    (hTable : attributes.IsMap fun _ => True)
    (tails heads : Ends) :
    (b.connect scope attributes tails heads).registry.IsTabled
      fun _ => True := by
  have hTable' :=
    isMap_portedTable (fun _ => trivial) hTable tails heads
  refine connect_induct
    (motive := fun b' => b'.registry.IsTabled fun _ => True) h ?_
  intro b' h' tail _ head _
  exact isTabled_connectPair h' scope hTable' tail head

end Build

section Running

variable {F : Factory}

/- What changes no entity changes no table. -/
theorem Registry.IsTabled.aside
    {r s : Registry F}
    (h : r.IsTabled fun _ => True)
    (hGraphs : s.graphs = r.graphs)
    (hNodes : s.nodes = r.nodes)
    (hEdges : s.edges = r.edges)
    (hRoots : s.roots = r.roots) :
    s.IsTabled fun _ => True :=
  (Change.aside r s hGraphs hNodes hEdges hRoots).isTabled h

theorem isTabled_subgraph
    {b : Build F}
    (h : b.registry.IsTabled fun _ => True)
    (scope : GraphId)
    (name : String)
    {body : List Stmt}
    (hBody :
      ∀ {b : Build F},
        (b.registry.IsTabled fun _ => True) →
          ∀ g : GraphId,
            (runBody g b body).registry.IsTabled fun _ => True) :
    ((Stmt.subgraph name body).run scope b).registry.IsTabled
      fun _ => True := by
  let g : GraphId := (b.openSubgraph scope name).1
  let inside : Build F :=
    (b.openSubgraph scope name).2.update (·.pushScope g)
  have hOpen := Build.isTabled_openSubgraph h scope name
  have hInside : inside.registry.IsTabled fun _ => True :=
    hOpen.aside rfl rfl rfl rfl
  exact (hBody hInside g).aside rfl rfl rfl rfl

mutual

theorem Endpoint.isTabled_run
    {b : Build F}
    (h : b.registry.IsTabled fun _ => True)
    (scope : GraphId) :
    ∀ e : Endpoint,
      (e.run scope b).2.registry.IsTabled fun _ => True
| .node ref => Build.isTabled_resolveNode h scope ref.name
| .subgraph name body => by
    have hRun := isTabled_subgraph h scope name
      fun h g => isTabled_runBody h g body
    exact Build.isTabled_adoptMembers hRun scope _

theorem isTabled_runSteps
    {attributes : AttributeTable}
    (hTable : attributes.IsMap fun _ => True)
    {b : Build F}
    (h : b.registry.IsTabled fun _ => True)
    (scope : GraphId)
    (tails : Build.Ends) :
    ∀ steps : List EdgeStep,
      (runSteps scope attributes tails b steps).registry.IsTabled
        fun _ => True
| [] => h
| .mk arrow location head :: rest => by
    have hArrow :
        (b.checkArrow scope arrow location).registry.IsTabled
          fun _ => True := by
      rcases Build.checkArrow_cases b scope arrow location with
        hCheck | ⟨d, hCheck⟩
      · rw [hCheck]
        exact h
      · rw [hCheck]
        exact h.aside rfl rfl rfl rfl
    have hHead := Endpoint.isTabled_run hArrow scope head
    have hConnect := Build.isTabled_connect hHead scope hTable tails
      (head.run scope (b.checkArrow scope arrow location)).1
    exact isTabled_runSteps hTable hConnect scope _ rest

theorem Stmt.isTabled_run
    {b : Build F}
    (h : b.registry.IsTabled fun _ => True)
    (scope : GraphId) :
    ∀ stmt : Stmt,
      (stmt.run scope b).registry.IsTabled fun _ => True
| .edge tail steps attributes =>
    isTabled_runSteps
      ((h.graph scope).edgeDefaults.setAll fun _ _ => trivial)
      (Endpoint.isTabled_run h scope tail) scope _ steps
| .node ref attributes =>
    (Change.setNode _ _ attributes fun _ _ => trivial).isTabled
      (Build.isTabled_resolveNode h scope ref.name)
| .defaults kind attributes => by
    have hSet :
        (b.registry.modifyGraph scope
          (Graph.setAttributes attributes)).IsTabled
          fun _ => True :=
      h.modifyGraph
        (fun _ hGraph => hGraph.setAttributes fun _ _ => trivial)
        scope
    unfold Stmt.run Build.applyDefaults
    by_cases hKind : kind = .graph
    · rw [if_pos hKind]
      exact hSet.modifyGraph
        (fun _ hGraph => hGraph.setDefaults (fun _ _ => trivial) kind)
        scope
    · rw [if_neg hKind]
      exact h.modifyGraph
        (fun _ hGraph => hGraph.setDefaults (fun _ _ => trivial) kind)
        scope
| .assign attr =>
    h.modifyGraph
      (fun _ hGraph => hGraph.setAttributes fun _ _ => trivial) scope
| .subgraph name body =>
    isTabled_subgraph h scope name fun h g => isTabled_runBody h g body

theorem isTabled_runBody
    {b : Build F}
    (h : b.registry.IsTabled fun _ => True)
    (scope : GraphId) :
    ∀ body : List Stmt,
      (runBody scope b body).registry.IsTabled fun _ => True
| [] => h
| stmt :: rest =>
    isTabled_runBody (Stmt.isTabled_run h scope stmt) scope rest

end

theorem GraphDecl.isTabled_run
    {b : Build F}
    (h : b.registry.IsTabled fun _ => True)
    (decl : GraphDecl) :
    (decl.run b).registry.IsTabled fun _ => True := by
  have hOpen :
      ((b.makeGraph (.new decl.name decl.directed decl.strict)
        none).2.update
          (·.pushScope b.registry.nextGraph)).registry.IsTabled
        fun _ => True :=
    (h.addGraph none (Graph.hasMaps_new _ _ _)).aside
      rfl rfl rfl rfl
  exact (isTabled_runBody hOpen _ decl.body).aside rfl rfl rfl rfl

end Running

------------------------------------------------------------
-- Tables of Reachable Registries
------------------------------------------------------------

namespace Registry

variable {F : Factory} {r : Registry F}

theorem IsTabled.load
    (h : r.IsTabled fun _ => True)
    (text : String) :
    (r.load text).registry.IsTabled fun _ => True := by
  cases hFile : Parser.file (.ofText text.toList r.options) with
  | ok decls p =>
      rw [(load_of_ok hFile).2]
      refine List.foldlRecOn
        (motive := fun b : Build F =>
          b.registry.IsTabled fun _ => True)
        decls _ (h.aside rfl rfl rfl rfl) ?_
      intro b hb decl _
      exact GraphDecl.isTabled_run hb decl
  | error d p =>
      rw [load_of_error hFile]
      exact h.aside rfl rfl rfl rfl

/- In what can be reached, tables have distinct names. -/
theorem Reachable.isTabled
    (h : r.Reachable) :
    r.IsTabled fun _ => True := by
  induction h with
  | empty factory options =>
      exact (isBuilt_empty factory options).isTabled
  | load text _ ih => exact ih.load text
  | addGraph hFresh _ _ ih => exact ih.addGraph _ hFresh.hasMaps
  | addNode name _ hTable _ ih =>
      exact ih.addNode _ name (.of_nodup hTable)
  | addMember _ _ _ ih => exact ih.addMember _ _
  | addEdge _ _ _ hTable _ ih =>
      exact ih.addEdge _ _ _ (.of_nodup hTable)
  | changeGraph _ hAttributes hGraphs hNodes hEdges _ ih =>
      refine ih.modifyGraph (fun _ _ => ?_) _
      exact ⟨.of_nodup hAttributes, .of_nodup hGraphs,
        .of_nodup hNodes, .of_nodup hEdges⟩
  | changeNode _ hTable _ ih =>
      refine ⟨ih.graph, fun m => ?_, ih.edge⟩
      exact forall_getD_modify
        (P := fun node : Node => node.attributes.IsMap fun _ => True)
        (fun _ _ => .of_nodup hTable)
        (fun j => ih.node ⟨j⟩) _ m.index
  | changeEdge _ hTable _ ih =>
      refine ⟨ih.graph, ih.node, fun d => ?_⟩
      exact forall_getD_modify
        (P := fun edge : Edge => edge.attributes.IsMap fun _ => True)
        (fun _ _ => .of_nodup hTable)
        (fun j => ih.edge ⟨j⟩) _ d.index
  | aside hGraphs hNodes hEdges hRoots _ ih =>
      exact ih.aside hGraphs hNodes hEdges hRoots

end Registry

end DotLang
