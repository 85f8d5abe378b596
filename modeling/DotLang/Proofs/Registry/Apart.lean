import DotLang.Proofs.Registry.Append
import DotLang.Proofs.Registry.Simulation

/-
  This file proves that reading a text neither changes nor looks
  at what is in a registry already.

  What is read goes behind what is there, with handles that are
  moved past those in use, and is the same as in a registry that
  has no entities.  The graphs that are open stay open.

  Key definitions include:
    * `Build.after`
    * `Registry.LoadsApart`

  Key theorems include:
    * `Build.simulation_after`
    * `GraphDecl.run_after`
    * `Registry.loadsApart`
-/

------------------------------------------------------------
-- Builds Behind a Registry
------------------------------------------------------------

namespace DotLang

/- An event with its handles moved. -/
def Event.shift (k : Offset) : Event → Event
| .graphMade name parent directed =>
    .graphMade name (parent.map k.graph) directed
| .nodeMade name owner => .nodeMade name (k.graph owner)
| .edgeMade tail arrow head => .edgeMade tail arrow head
| .warned d => .warned d

namespace Build

/- A build with its registry behind another one. -/
def after
    (b : Build .plain)
    (r : Registry .plain) : Build .plain where
  registry := r.append b.registry
  events := b.events.map (Event.shift r.counts)

variable {b : Build .plain} {scope : GraphId}

theorem note_after
    (b : Build .plain)
    (r : Registry .plain)
    (event : Event) :
    (b.after r).note (event.shift r.counts) =
      (b.note event).after r := by
  simp [note, after]

theorem update_after
    {b : Build .plain}
    {r : Registry .plain}
    {change change' : Registry .plain → Registry .plain}
    (h : change (r.append b.registry) = r.append (change' b.registry)) :
    (b.after r).update change = (b.update change').after r := by
  simp [update, after, h]

/- Opening and closing a graph behind a registry. -/
theorem pushScope_after
    (b : Build .plain)
    (r : Registry .plain)
    (g : GraphId) :
    (b.after r).update (·.pushScope (r.counts.graph g)) =
      (b.update (·.pushScope g)).after r :=
  rfl

theorem popScope_after
    (r : Registry .plain)
    (hScope : b.registry.scope ≠ []) :
    (b.after r).update (·.popScope) =
      (b.update (·.popScope)).after r := by
  apply update_after
  simp [Registry.popScope, Registry.append,
    List.tail_append_of_ne_nil, hScope]

theorem makeGraph_after
    (b : Build .plain)
    (r : Registry .plain)
    (graph : Graph)
    (parent : Option GraphId) :
    (b.after r).makeGraph (graph.shift r.counts)
        (parent.map r.counts.graph) =
      (r.counts.graph (b.makeGraph graph parent).1,
        (b.makeGraph graph parent).2.after r) := by
  have hAdd := Registry.addGraph_append r b.registry graph parent
  simp only [makeGraph, after, hAdd]
  simp [note, Event.shift, Graph.shift]

theorem makeNode_after
    (b : Build .plain)
    (r : Registry .plain)
    (scope : GraphId)
    (name : String) :
    (b.after r).makeNode (r.counts.graph scope) name =
      (r.counts.node (b.makeNode scope name).1,
        (b.makeNode scope name).2.after r) := by
  have hDefaults :
      ((r.append b.registry).graph
          (r.counts.graph scope)).nodeDefaults =
        (b.registry.graph scope).nodeDefaults :=
    Registry.view_graph_append r b.registry Graph.nodeDefaults
      (fun _ _ => rfl) scope
  have hAdd :=
    Registry.addNode_append r b.registry scope name
      (b.registry.graph scope).nodeDefaults
  simp [makeNode, after, hDefaults, hAdd, note, Event.shift]

theorem makeEdge_after
    (r : Registry .plain)
    (scope : GraphId)
    {tail head : NodeId}
    (hTail : b.registry.HasNode tail)
    (hHead : b.registry.HasNode head)
    (attributes : AttributeTable) :
    (b.after r).makeEdge (r.counts.graph scope) (r.counts.node tail)
        (r.counts.node head) attributes =
      (b.makeEdge scope tail head attributes).after r := by
  have hAdd :=
    Registry.addEdge_append r b.registry scope tail head attributes
  simp [makeEdge, after, Registry.graph_append,
    Registry.node_append r _ hTail, Registry.node_append r _ hHead,
    hAdd, note, Event.shift, Graph.shift, Node.shift]

------------------------------------------------------------
-- Names
------------------------------------------------------------

theorem addMember_after
    (b : Build .plain)
    (r : Registry .plain)
    (scope : GraphId)
    (n : NodeId) :
    (b.after r).update
        (·.addMember (r.counts.graph scope) (r.counts.node n)) =
      (b.update (·.addMember scope n)).after r :=
  update_after (Registry.addMember_append r b.registry scope n)

theorem resolveNode_after
    (r : Registry .plain)
    (h : b.registry.IsConsistent)
    (hScope : b.registry.HasGraph scope)
    (name : String) :
    (b.after r).resolveNode (r.counts.graph scope) name =
      (r.counts.node (b.resolveNode scope name).1,
        (b.resolveNode scope name).2.after r) := by
  have hResolve :
      (b.after r).registry.resolveNode? (r.counts.graph scope) name =
        (b.registry.resolveNode? scope name).map r.counts.node :=
    Registry.resolveNode?_append r h hScope name
  cases hFind : b.registry.resolveNode? scope name with
  | some n =>
      rw [hFind] at hResolve
      rw [resolveNode_of_some hFind, resolveNode_of_some hResolve]
      exact Prod.ext rfl (addMember_after b r scope n)
  | none =>
      rw [hFind] at hResolve
      simp only [resolveNode, hResolve, hFind, Option.map_none,
        makeNode_after]
      exact Prod.ext rfl (addMember_after _ r scope _)

theorem openSubgraph_after
    (b : Build .plain)
    (r : Registry .plain)
    (scope : GraphId)
    (name : String) :
    (b.after r).openSubgraph (r.counts.graph scope) name =
      (r.counts.graph (b.openSubgraph scope name).1,
        (b.openSubgraph scope name).2.after r) := by
  have hChild :
      (b.after r).registry.findChild? (r.counts.graph scope) name =
        (b.registry.findChild? scope name).map r.counts.graph :=
    Registry.findChild?_append r scope name
  have hGraph :
      (b.after r).registry.graph (r.counts.graph scope) =
        (b.registry.graph scope).shift r.counts :=
    Registry.graph_append r b.registry scope
  rcases openSubgraph_cases b scope name with
    ⟨g, hName, hFind, hOpen⟩ | ⟨hNew, hOpen⟩
  · rw [hFind] at hChild
    rw [hOpen, openSubgraph_of_some hName hChild]
  · have hNew' :
        name ≠ "" →
          (b.after r).registry.findChild? (r.counts.graph scope)
            name = none := by
      intro hName
      rw [hChild, hNew hName]
      rfl
    rw [hOpen, openSubgraph_of_new hNew', hGraph]
    exact makeGraph_after b r
      (.newSubgraph name (b.registry.graph scope)) (some scope)

------------------------------------------------------------
-- Edges
------------------------------------------------------------

theorem checkArrow_after
    (b : Build .plain)
    (r : Registry .plain)
    (scope : GraphId)
    (arrow : Arrow)
    (location : Location) :
    (b.after r).checkArrow (r.counts.graph scope) arrow location =
      (b.checkArrow scope arrow location).after r := by
  have hDirected :
      ((b.after r).registry.graph (r.counts.graph scope)).directed =
        (b.registry.graph scope).directed :=
    Registry.view_graph_append r b.registry Graph.directed
      (fun _ _ => rfl) scope
  unfold checkArrow
  rw [hDirected]
  dsimp only
  cases arrowWarning? (b.registry.graph scope).directed arrow with
  | none => rfl
  | some message =>
      dsimp only
      rw [← note_after]
      simp [update, after, note, Event.shift, Registry.addDiagnostic,
        Registry.append]

theorem connectPair_after
    (r : Registry .plain)
    (h : b.registry.IsConsistent)
    (scope : GraphId)
    (attributes : AttributeTable)
    {tail head : NodeId}
    (hTail : b.registry.HasNode tail)
    (hHead : b.registry.HasNode head) :
    (b.after r).connectPair (r.counts.graph scope) attributes
        (r.counts.node tail) (r.counts.node head) =
      (b.connectPair scope attributes tail head).after r := by
  have hStrict :
      ((b.after r).registry.graph (r.counts.graph scope)).strict =
        (b.registry.graph scope).strict :=
    Registry.view_graph_append r b.registry Graph.strict
      (fun _ _ => rfl) scope
  have hFind :
      (b.after r).registry.findEdge? (r.counts.node tail)
          (r.counts.node head) =
        (b.registry.findEdge? tail head).map r.counts.edge :=
    Registry.findEdge?_append r h.listsEdges hTail hHead
  rcases connectPair_cases b scope attributes tail head with
    ⟨e, hIs, hSome, hConnect⟩ | ⟨hNew, hConnect⟩
  · have hFound :
        (b.after r).registry.findEdge? (r.counts.node tail)
            (r.counts.node head) =
          some (r.counts.edge e) := by
      rw [hFind, hSome]
      rfl
    rw [hConnect, connectPair_of_some (hStrict.trans hIs) hFound]
    apply update_after
    apply Registry.modifyEdge_append
    intro edge
    rfl
  · have hNew' :
        ((b.after r).registry.graph
            (r.counts.graph scope)).strict = true →
          (b.after r).registry.findEdge? (r.counts.node tail)
            (r.counts.node head) = none := by
      intro hIs
      rw [hFind, hNew (hStrict.symm.trans hIs)]
      rfl
    rw [hConnect, connectPair_of_new hNew']
    exact makeEdge_after r scope hTail hHead attributes

theorem applyDefaults_after
    (b : Build .plain)
    (r : Registry .plain)
    (scope : GraphId)
    (kind : EntityKind)
    (attributes : List Attribute) :
    (b.after r).applyDefaults (r.counts.graph scope) kind
        attributes =
      (b.applyDefaults scope kind attributes).after r := by
  have hSet :
      ∀ b : Build .plain,
        (b.after r).update
            (·.modifyGraph (r.counts.graph scope)
              (Graph.setDefaults kind attributes)) =
          (b.update (·.modifyGraph scope
            (Graph.setDefaults kind attributes))).after r := by
    intro b
    apply update_after
    apply Registry.modifyGraph_append
    intro graph
    cases kind <;> rfl
  unfold applyDefaults
  by_cases hKind : kind = .graph
  · rw [if_pos hKind, if_pos hKind]
    refine Eq.trans ?_ (hSet _)
    refine congrArg (fun b' : Build .plain =>
      b'.update (·.modifyGraph _ _)) (update_after ?_)
    apply Registry.modifyGraph_append
    intro graph
    rfl
  · rw [if_neg hKind, if_neg hKind]
    exact hSet b

/- What is behind a registry is worked on as without it. -/
theorem simulation_after
    (r : Registry .plain) :
    Simulation r.counts.graph r.counts.node
      fun b c : Build .plain =>
        b.registry.IsConsistent ∧ c = b.after r where
  consistent h := h.1
  members := by
    rintro b _ ⟨-, rfl⟩ g
    rw [after, Registry.graph_append]
    rfl
  edgeDefaults := by
    rintro b _ ⟨-, rfl⟩ g
    exact Registry.view_graph_append r b.registry
      Graph.edgeDefaults (fun _ _ => rfl) g
  resolveNode := by
    rintro b _ g ⟨h, rfl⟩ hg name
    rw [resolveNode_after r h hg]
    exact ⟨rfl, (resolveNode_steps h hg name).1.isConsistent h, rfl⟩
  openSubgraph := by
    rintro b _ g ⟨h, rfl⟩ hg name
    rw [openSubgraph_after]
    exact ⟨rfl, (openSubgraph_steps h hg name).1.isConsistent h, rfl⟩
  pushScope := by
    rintro b _ g ⟨h, rfl⟩ hg
    exact ⟨(Registry.Step.pushScope _ g hg).isConsistent h,
      pushScope_after b r g⟩
  popScope := by
    rintro b _ ⟨h, rfl⟩ hScope
    exact ⟨(Registry.Step.popScope _).isConsistent h,
      popScope_after r hScope⟩
  addMember := by
    rintro b _ g n ⟨h, rfl⟩ hg hn
    exact ⟨(Registry.Step.addMember _ g n hg hn).isConsistent h,
      addMember_after b r g n⟩
  checkArrow := by
    rintro b _ ⟨h, rfl⟩ g arrow location
    exact ⟨(checkArrow_steps b g arrow location).isConsistent h,
      checkArrow_after b r g arrow location⟩
  connectPair := by
    rintro b _ g tail head ⟨h, rfl⟩ hg hTail hHead attributes
    exact ⟨(connectPair_steps h hg attributes hTail
        hHead).isConsistent h,
      connectPair_after r h g attributes hTail hHead⟩
  applyDefaults := by
    rintro b _ g ⟨h, rfl⟩ hg kind attributes
    exact ⟨(applyDefaults_steps hg kind attributes).isConsistent h,
      applyDefaults_after b r g kind attributes⟩
  setGraph := by
    rintro b _ g ⟨h, rfl⟩ hg attributes
    refine ⟨(Registry.Step.setGraph _ g _ hg
      fun _ => rfl).isConsistent h, update_after ?_⟩
    apply Registry.modifyGraph_append
    intro graph
    rfl
  setNode := by
    rintro b _ n ⟨h, rfl⟩ hn attributes
    refine ⟨(Registry.Step.setNode _ n _ hn
      fun _ => rfl).isConsistent h, update_after ?_⟩
    apply Registry.modifyNode_append
    intro node
    rfl

end Build

------------------------------------------------------------
-- Running Graphs
------------------------------------------------------------

section Running

open Registry

variable (r : Registry .plain)

/- A top level graph is run as in a registry without others. -/
theorem GraphDecl.run_after
    {b : Build .plain}
    (h : b.registry.IsConsistent)
    (decl : GraphDecl) :
    decl.run (b.after r) = (decl.run b).after r := by
  let graph : Graph := .new decl.name decl.directed decl.strict
  have hMake := Build.makeGraph_after b r graph none
  have hOpen : Step b.registry (b.makeGraph graph none).2.registry :=
    .addGraph _ _ none (Graph.isBlank_new _ _ _) nofun
  have hg :
      (b.makeGraph graph none).2.registry.HasGraph
        b.registry.nextGraph :=
    (hasGraph_addGraph _).mpr (.inr rfl)
  have hWithin :=
    (Build.simulation_after r).within
      (b := (b.makeGraph graph none).2)
      ⟨hOpen.isConsistent h, rfl⟩ hg decl.body
  have hRun :
      decl.run (b.after r) =
        (runBody (r.counts.graph b.registry.nextGraph)
          (((b.makeGraph graph none).2.after r).update
            (·.pushScope (r.counts.graph b.registry.nextGraph)))
          decl.body).update (·.popScope) := by
    unfold GraphDecl.run
    rw [show Graph.new decl.name decl.directed decl.strict =
      graph.shift r.counts from rfl,
      show (none : Option GraphId) =
        (none : Option GraphId).map r.counts.graph from rfl,
      hMake]
    rfl
  rw [hRun]
  exact hWithin.2

theorem runGraphs_after
    {s : Registry .plain}
    (h : s.IsConsistent)
    (decls : List GraphDecl) :
    runGraphs (r.append s) decls = (runGraphs s decls).after r := by
  let Mirrors (b' b : Build .plain) : Prop :=
    b.registry.IsConsistent ∧ b' = b.after r
  suffices hAll :
      Mirrors (runGraphs (r.append s) decls) (runGraphs s decls) from
    hAll.2
  refine List.foldl_rel ⟨h, rfl⟩ fun decl _ _ b hBefore => ?_
  rcases hBefore with ⟨hConsistent, rfl⟩
  exact ⟨(GraphDecl.run_steps hConsistent decl).isConsistent
      hConsistent,
    GraphDecl.run_after r hConsistent decl⟩

end Running

------------------------------------------------------------
-- Loading
------------------------------------------------------------

namespace Registry

/-
  A text is read into a registry as into one that has the same
  options and no entities, and nothing comes of a text with a
  fatal problem but the problems before it.
-/
structure LoadsApart
    (r : Registry .plain)
    (text : String) : Prop where
  outcome_eq :
    (r.load text).outcome = ((plain r.options).load text).outcome
  registry_eq :
    (r.load text).registry =
      r.append ((plain r.options).load text).registry
  of_error :
    ∀ d : Diagnostic,
      (r.load text).outcome = .error d →
        ∃ p : Parser,
          Parser.file (.ofText text.toList r.options) = .error d p ∧
            (r.load text).registry =
              { r with diagnostics := r.diagnostics ++ p.diagnostics }
  scope_eq : (r.load text).registry.scope = r.scope
  graph_eq :
    ∀ g : GraphId,
      r.HasGraph g → (r.load text).registry.graph g = r.graph g
  node_eq :
    ∀ n : NodeId,
      r.HasNode n → (r.load text).registry.node n = r.node n
  edge_eq :
    ∀ e : EdgeId,
      r.HasEdge e → (r.load text).registry.edge e = r.edge e

variable (r : Registry .plain) (text : String)

/- Problems are added in front of a registry as to an empty one. -/
theorem append_plain
    (diagnostics : List Diagnostic) :
    r.append
        { plain r.options with
          diagnostics := (plain r.options).diagnostics ++ diagnostics } =
      { r with diagnostics := r.diagnostics ++ diagnostics } := by
  simp [append, plain, empty]

theorem load_eq_append :
    (r.load text).outcome = ((plain r.options).load text).outcome ∧
      (r.load text).registry =
        r.append ((plain r.options).load text).registry := by
  have hOptions : (plain r.options).options = r.options := rfl
  cases hFile : Parser.file (.ofText text.toList r.options) with
  | ok decls p =>
      rcases load_of_ok hFile with ⟨hOutcome, hRegistry⟩
      rcases load_of_ok (r := plain r.options) hFile with
        ⟨hOutcome', hRegistry'⟩
      have hPlain : (plain r.options).IsConsistent :=
        isConsistent_empty (F := .plain) () r.options
      have hRun := runGraphs_after r
        ((Step.diagnose (plain r.options) p.diagnostics).isConsistent
          hPlain)
        decls
      rw [append_plain] at hRun
      rw [hOutcome, hOutcome', hRegistry, hRegistry', hRun]
      exact ⟨rfl, rfl⟩
  | error d p =>
      rw [load_of_error hFile,
        load_of_error (r := plain r.options) hFile, append_plain]
      simp [load, hFile, hOptions]

/- Reading a text leaves what was read before alone. -/
theorem loadsApart :
    r.LoadsApart text := by
  rcases load_eq_append r text with ⟨hOutcome, hRegistry⟩
  refine
    { outcome_eq := hOutcome
      registry_eq := hRegistry
      of_error := ?_
      scope_eq := scope_load r text
      graph_eq := ?_
      node_eq := ?_
      edge_eq := ?_ }
  · intro d hError
    cases hFile : Parser.file (.ofText text.toList r.options) with
    | ok decls p =>
        rw [(load_of_ok hFile).1] at hError
        cases hError
    | error d' p =>
        have hOutcome : (r.load text).outcome = .error d' := by
          simp only [load, hFile]
        rw [hOutcome] at hError
        cases hError
        exact ⟨p, rfl, load_of_error hFile⟩
  · intro g hg
    rw [hRegistry, graph_append_of_hasGraph r _ hg]
  · intro n hn
    rw [hRegistry, node_append_of_hasNode r _ hn]
  · intro e he
    rw [hRegistry, edge_append_of_hasEdge r _ he]

end Registry

end DotLang
