import DotLang.Proofs.Registry.Noting

/-
  This file proves that asking for debug lines changes nothing
  but the journal, which then has one more line for each graph,
  node and edge that a text makes, in the order in which they
  are made.

  Key definitions include:
    * `Build.Traces`
    * `Registry.TracesMade`

  Key theorems include:
    * `Build.Traces.extend`
    * `Build.simulation_forget`
    * `Registry.tracesMade`
-/

------------------------------------------------------------
-- Traces of Builds
------------------------------------------------------------

namespace DotLang

open Registry

variable {F : Factory}

namespace Build

variable {r : Registry F} {b b' : Build F.noting} {scope : GraphId}

/- The events tell about what is noted, in the same order. -/
structure Traces (r : Registry F) (b : Build F.noting) : Prop where
  consistent : b.registry.IsConsistent
  noted : r.IsNoted b.registry
  events_eq :
    b.events.filter Event.isMade =
      b.registry.made.map (Made.event b.registry)

/- What steps make is told behind what was told before. -/
theorem Traces.extend
    (h : b.Traces r)
    (hSteps : Steps b.registry b'.registry)
    (new : List Made)
    (hMade : b'.registry.made = b.registry.made ++ new)
    (hEvents :
      b'.events.filter Event.isMade =
        b.events.filter Event.isMade ++
          new.map (Made.event b'.registry)) :
    b'.Traces r where
  consistent := hSteps.isConsistent h.consistent
  noted := hSteps.isNoted h.noted
  events_eq := by
    rw [hEvents, hMade, List.map_append, h.events_eq]
    congr 1
    apply List.map_congr_left
    intro m hm
    exact (hSteps.event_eq h.consistent (h.noted.isIn hm)).symm

/- Steps that make nothing and tell nothing are passed over. -/
theorem Traces.quiet
    (h : b.Traces r)
    {change : Registry F.noting → Registry F.noting}
    (hSteps : Steps b.registry (change b.registry))
    (hMade : (change b.registry).made = b.registry.made) :
    (b.update change).Traces r :=
  h.extend hSteps []
    (hMade.trans (List.append_nil _).symm) (List.append_nil _).symm

theorem filter_events_note
    (b : Build F)
    {event : Event}
    (h : event.isMade = true) :
    (b.note event).events.filter Event.isMade =
      b.events.filter Event.isMade ++ [event] := by
  simp [note, h]

theorem Traces.makeGraph
    (h : b.Traces r)
    {graph : Graph}
    {parent : Option GraphId}
    (hBlank : graph.IsBlank)
    (hParent : ∀ g, parent = some g → b.registry.HasGraph g) :
    (b.makeGraph graph parent).2.Traces r := by
  refine h.extend (.single (.addGraph _ graph parent hBlank hParent))
    [.graph b.registry.nextGraph] (made_addGraph h.noted graph parent)
    ((filter_events_note _ rfl).trans ?_)
  have hNew :
      (b.makeGraph graph parent).2.registry.graph
          b.registry.nextGraph =
        { graph with parent := parent } :=
    graph_addGraph_next hParent
  rw [List.map_singleton, Made.event, hNew]

theorem Traces.makeNode
    (h : b.Traces r)
    (hScope : b.registry.HasGraph scope)
    (name : String) :
    (b.makeNode scope name).2.Traces r := by
  refine h.extend (.single (.addNode _ scope name _ hScope))
    [.node b.registry.nextNode] (made_addNode h.noted scope name _)
    ((filter_events_note _ rfl).trans ?_)
  have hNew :
      (b.makeNode scope name).2.registry.node b.registry.nextNode =
        { name := name
          owner := scope
          attributes := (b.registry.graph scope).nodeDefaults } :=
    (node_addNode scope name _ _).trans (if_pos rfl)
  rw [List.map_singleton, Made.event, hNew]

theorem Traces.makeEdge
    (h : b.Traces r)
    (hScope : b.registry.HasGraph scope)
    {tail head : NodeId}
    (hTail : b.registry.HasNode tail)
    (hHead : b.registry.HasNode head)
    (attributes : AttributeTable) :
    (b.makeEdge scope tail head attributes).Traces r := by
  have hSame :=
    sameNodes_addEdge (r := b.registry) scope tail head attributes
  refine h.extend
    (.single (.addEdge _ scope tail head attributes hScope hTail hHead))
    [.edge b.registry.nextEdge]
    (made_addEdge h.noted scope tail head attributes)
    ((filter_events_note _ rfl).trans ?_)
  have hNew :
      (b.makeEdge scope tail head attributes).registry.edge
          b.registry.nextEdge =
        { tail := tail
          head := head
          directed := (b.registry.graph scope).directed
          owner := scope
          attributes := attributes } :=
    (edge_addEdge scope tail head attributes _).trans (if_pos rfl)
  have hName :
      ∀ n,
        ((b.makeEdge scope tail head attributes).registry.node
          n).name = (b.registry.node n).name :=
    hSame.name
  rw [List.map_singleton, Made.event, hNew, hName, hName]
  rfl

theorem Traces.addMember
    (h : b.Traces r)
    {n : NodeId}
    (hScope : b.registry.HasGraph scope)
    (hNode : b.registry.HasNode n) :
    (b.update (·.addMember scope n)).Traces r :=
  h.quiet (.single (.addMember _ scope n hScope hNode)) rfl

theorem Traces.resolveNode
    (h : b.Traces r)
    (hScope : b.registry.HasGraph scope)
    (name : String) :
    (b.resolveNode scope name).2.Traces r := by
  cases hFind : b.registry.resolveNode? scope name with
  | none =>
      have hNode :
          (b.makeNode scope name).2.registry.HasNode
            b.registry.nextNode :=
        (hasNode_addNode scope name _ _).mpr (.inr rfl)
      have hGraph :
          (b.makeNode scope name).2.registry.HasGraph scope :=
        (grows_addNode scope name _).graph hScope
      rw [resolveNode_of_none hFind]
      exact (h.makeNode hScope name).addMember hGraph hNode
  | some n =>
      have hNode := hasNode_of_resolveNode?_eq_some h.consistent hFind
      rw [resolveNode_of_some hFind]
      exact h.addMember hScope hNode

theorem Traces.openSubgraph
    (h : b.Traces r)
    (hScope : b.registry.HasGraph scope)
    (name : String) :
    (b.openSubgraph scope name).2.Traces r := by
  rcases openSubgraph_cases b scope name with
    ⟨g, -, -, hOpen⟩ | ⟨-, hOpen⟩
  · rw [hOpen]
    exact h
  · rw [hOpen]
    exact h.makeGraph (Graph.isBlank_newSubgraph _ _)
      fun _ hEq => Option.some.inj hEq ▸ hScope

theorem Traces.checkArrow
    (h : b.Traces r)
    (scope : GraphId)
    (arrow : Arrow)
    (location : Location) :
    (b.checkArrow scope arrow location).Traces r := by
  have hSteps := checkArrow_steps b scope arrow location
  rcases Build.checkArrow_cases b scope arrow location with
    hCheck | ⟨d, hCheck⟩
  · rw [hCheck]
    exact h
  · rw [hCheck] at hSteps ⊢
    exact h.extend hSteps [] (List.append_nil _).symm
      (by simp [note, update, Event.isMade])

theorem Traces.connectPair
    (h : b.Traces r)
    (hScope : b.registry.HasGraph scope)
    {tail head : NodeId}
    (hTail : b.registry.HasNode tail)
    (hHead : b.registry.HasNode head)
    (attributes : AttributeTable) :
    (b.connectPair scope attributes tail head).Traces r := by
  have hSteps :=
    connectPair_steps h.consistent hScope attributes hTail hHead
  rcases Build.connectPair_cases b scope attributes tail head with
    ⟨e, -, -, hConnect⟩ | ⟨-, hConnect⟩
  · rw [hConnect] at hSteps ⊢
    exact h.quiet hSteps rfl
  · rw [hConnect]
    exact h.makeEdge hScope hTail hHead attributes

theorem Traces.applyDefaults
    (h : b.Traces r)
    (hScope : b.registry.HasGraph scope)
    (kind : EntityKind)
    (attributes : List Attribute) :
    (b.applyDefaults scope kind attributes).Traces r := by
  refine h.extend (applyDefaults_steps hScope kind attributes) []
    (Eq.trans ?_ (List.append_nil _).symm)
    (Eq.trans ?_ (List.append_nil _).symm) <;>
  cases kind <;> rfl

/-
  Statements run with notes as without them, and the events tell
  what is noted.
-/
theorem simulation_forget
    (debug : Bool)
    (r : Registry F) :
    Simulation id id
      fun (b : Build F.noting) (c : Build F) =>
        b.Traces r ∧ c = b.forget debug where
  consistent h := h.1.consistent
  members := by
    rintro b _ ⟨-, rfl⟩ g
    exact (List.map_id _).symm
  edgeDefaults := by
    rintro b _ ⟨-, rfl⟩ g
    rfl
  resolveNode := by
    rintro b _ g ⟨h, rfl⟩ hg name
    rw [id, resolveNode_forget]
    exact ⟨rfl, h.resolveNode hg name, rfl⟩
  openSubgraph := by
    rintro b _ g ⟨h, rfl⟩ hg name
    rw [id, openSubgraph_forget]
    exact ⟨rfl, h.openSubgraph hg name, rfl⟩
  pushScope := by
    rintro b _ g ⟨h, rfl⟩ hg
    exact ⟨h.quiet (.single (.pushScope _ g hg)) rfl, rfl⟩
  popScope := by
    rintro b _ ⟨h, rfl⟩ -
    exact ⟨h.quiet (.single (.popScope _)) rfl, rfl⟩
  addMember := by
    rintro b _ g n ⟨h, rfl⟩ hg hn
    exact ⟨h.addMember hg hn, rfl⟩
  checkArrow := by
    rintro b _ ⟨h, rfl⟩ g arrow location
    exact ⟨h.checkArrow g arrow location,
      checkArrow_forget debug b g arrow location⟩
  connectPair := by
    rintro b _ g tail head ⟨h, rfl⟩ hg hTail hHead attributes
    exact ⟨h.connectPair hg hTail hHead attributes,
      connectPair_forget debug b g attributes tail head⟩
  applyDefaults := by
    rintro b _ g ⟨h, rfl⟩ hg kind attributes
    exact ⟨h.applyDefaults hg kind attributes,
      applyDefaults_forget debug b g kind attributes⟩
  setGraph := by
    rintro b _ g ⟨h, rfl⟩ hg attributes
    exact ⟨h.quiet (.single (.setGraph _ g _ hg fun _ => rfl)) rfl,
      rfl⟩
  setNode := by
    rintro b _ n ⟨h, rfl⟩ hn attributes
    exact ⟨h.quiet (.single (.setNode _ n _ hn fun _ => rfl)) rfl,
      rfl⟩

end Build

------------------------------------------------------------
-- Running Graphs
------------------------------------------------------------

section Running

variable {r : Registry F} {debug : Bool}

/- A build with notes, and the same one without them. -/
def Build.Mirrors
    (r : Registry F)
    (debug : Bool)
    (b : Build F.noting)
    (c : Build F) : Prop :=
  b.Traces r ∧ c = b.forget debug

theorem GraphDecl.run_mirrors
    {b : Build F.noting}
    {c : Build F}
    (h : b.Mirrors r debug c)
    (decl : GraphDecl) :
    (decl.run b).Mirrors r debug (decl.run c) := by
  rcases h with ⟨h, rfl⟩
  let graph : Graph := .new decl.name decl.directed decl.strict
  have hMake : (b.makeGraph graph none).2.Traces r :=
    h.makeGraph (Graph.isBlank_new _ _ _) nofun
  have hg :
      (b.makeGraph graph none).2.registry.HasGraph
        b.registry.nextGraph :=
    (hasGraph_addGraph _).mpr (.inr rfl)
  have hWithin :=
    (Build.simulation_forget debug r).within ⟨hMake, rfl⟩ hg
      decl.body
  unfold GraphDecl.run
  rw [Build.makeGraph_forget]
  exact hWithin

theorem runGraphs_mirrors
    (h : r.IsConsistent)
    (debug : Bool)
    (decls : List GraphDecl) :
    (runGraphs r.noting decls).Mirrors r debug
      (runGraphs (r.setDebug debug) decls) := by
  have hStart : (Build.start r.noting).Traces r :=
    ⟨h.noting, isNoted_noting r, rfl⟩
  exact List.foldl_rel (r := Build.Mirrors r debug) ⟨hStart, rfl⟩
    fun decl _ _ _ hBefore => decl.run_mirrors hBefore

end Running

------------------------------------------------------------
-- Journals
------------------------------------------------------------

/- Lines about what was made are the ones of the debug level. -/
theorem Event.level_entry_iff
    (event : Event) :
    event.entry.level = .debug ↔ event.isMade = true := by
  cases event <;> simp [entry, isMade, Entry.warned]

theorem filter_debug_journalOf
    (events : List Event) :
    ((journalOf true events).filter fun e => e.level = .debug) =
      (events.filter Event.isMade).map Event.entry := by
  simp [journalOf, List.filter_map, Function.comp_def,
    Event.level_entry_iff]

theorem filter_not_debug_journalOf
    (events : List Event) :
    ((journalOf true events).filter fun e => e.level ≠ .debug) =
      journalOf false events := by
  simp [journalOf, List.filter_map, Function.comp_def,
    Event.level_entry_iff]

namespace Registry

variable {r : Registry F}

/-
  Asking for debug lines changes nothing but the journal: it has
  the same lines as without them, and one line more for each
  entity that the text makes.  These lines stand in the order in
  which the entities are made, and each tells how its entity is
  in the end.  Of each kind just the new ones are made, in the
  order of their handles.
-/
structure TracesMade (r : Registry F) (text : String) : Prop where
  outcome :
    ((r.setDebug true).load text).outcome =
      ((r.setDebug false).load text).outcome
  registry :
    ((r.setDebug true).load text).registry =
      ((r.setDebug false).load text).registry.setDebug true
  quiet :
    (((r.setDebug true).load text).journal.filter fun e =>
        e.level ≠ .debug) =
      ((r.setDebug false).load text).journal
  noted :
    ∀ debug : Bool,
      (r.noting.load text).registry.forget debug =
        ((r.setDebug debug).load text).registry
  traced :
    (((r.setDebug true).load text).journal.filter fun e =>
        e.level = .debug) =
      (r.noting.load text).registry.made.map fun m =>
        (m.event ((r.setDebug true).load text).registry).entry
  graphs :
    ((r.setDebug true).load text).registry.graphIds =
      r.graphIds ++
        (r.noting.load text).registry.made.filterMap Made.graph?
  nodes :
    ((r.setDebug true).load text).registry.nodeIds =
      r.nodeIds ++
        (r.noting.load text).registry.made.filterMap Made.node?
  edges :
    ((r.setDebug true).load text).registry.edgeIds =
      r.edgeIds ++
        (r.noting.load text).registry.made.filterMap Made.edge?

/- What is told does not depend on notes. -/
theorem event_forget
    (debug : Bool)
    (t : Registry F.noting)
    (m : Made) :
    m.event (t.forget debug) = m.event t := by
  cases m <;> rfl

/- A text that is read makes what its statements make. -/
theorem tracesMade_of_ok
    (h : r.IsConsistent)
    {text : String}
    {decls : List GraphDecl}
    {p : Parser}
    (hFile :
      Parser.file (.ofText text.toList r.options) = .ok decls p) :
    r.TracesMade text := by
  let s : Registry F :=
    { r with diagnostics := r.diagnostics ++ p.diagnostics }
  have hs : s.IsConsistent := (Step.diagnose r _).isConsistent h
  let b : Build F.noting := runGraphs s.noting decls
  have hTraces : b.Traces s := (runGraphs_mirrors hs true decls).1
  have hLoad :
      ∀ debug : Bool,
        (r.setDebug debug).load text =
          { registry := b.registry.forget debug
            outcome := .ok ()
            journal :=
              p.diagnostics.map .recovered ++
                journalOf debug b.events } := by
    intro debug
    have hRun : runGraphs (s.setDebug debug) decls = b.forget debug :=
      (runGraphs_mirrors hs debug decls).2
    have hFile' :
        Parser.file
            (.ofText text.toList (r.setDebug debug).options) =
          .ok decls p :=
      hFile
    simp only [load, hFile']
    exact congrArg
      (fun c : Build F =>
        { registry := c.registry
          outcome := .ok ()
          journal :=
            p.diagnostics.map .recovered ++
              journalOf debug c.events : Loading F })
      hRun
  have hNoting : (r.noting.load text).registry = b.registry :=
    (load_of_ok (r := r.noting) hFile).2
  have hRecovered :
      ∀ e ∈ p.diagnostics.map Entry.recovered,
        e.level ≠ .debug := by
    simp [Entry.recovered]
  constructor
  · rw [hLoad, hLoad]
  · rw [hLoad, hLoad]
    rfl
  · rw [hLoad, hLoad, List.filter_append, filter_not_debug_journalOf,
      List.filter_eq_self.mpr (by simpa using hRecovered)]
  · intro debug
    rw [hLoad, hNoting]
  · rw [hLoad, hNoting, List.filter_append, filter_debug_journalOf,
      List.filter_eq_nil_iff.mpr (by simpa using hRecovered),
      hTraces.events_eq, List.map_map]
    simp only [event_forget]
    rfl
  · rw [hLoad, hNoting]
    exact hTraces.noted.graphIds
  · rw [hLoad, hNoting]
    exact hTraces.noted.nodeIds
  · rw [hLoad, hNoting]
    exact hTraces.noted.edgeIds

/- A text with a fatal problem makes nothing. -/
theorem tracesMade_of_error
    {text : String}
    {d : Diagnostic}
    {p : Parser}
    (hFile :
      Parser.file (.ofText text.toList r.options) = .error d p) :
    r.TracesMade text := by
  have hLoad :
      ∀ debug : Bool,
        (r.setDebug debug).load text =
          { registry :=
              setDebug
                { r with
                  diagnostics := r.diagnostics ++ p.diagnostics }
                debug
            outcome := .error d
            journal :=
              p.diagnostics.map .recovered ++
                [fatalEntry text.toList d] } := by
    intro debug
    have hFile' :
        Parser.file
            (.ofText text.toList (r.setDebug debug).options) =
          .error d p :=
      hFile
    simp only [load, hFile']
    rfl
  have hNoting :
      (r.noting.load text).registry =
        { r.noting with
          diagnostics := r.noting.diagnostics ++ p.diagnostics } :=
    load_of_error (r := r.noting) hFile
  have hQuiet :
      ∀ e ∈ p.diagnostics.map Entry.recovered ++
          [fatalEntry text.toList d],
        e.level ≠ .debug := by
    simp [or_imp, forall_and, Entry.recovered, fatalEntry]
  constructor
  · rw [hLoad, hLoad]
  · rw [hLoad, hLoad]
    rfl
  · rw [hLoad, hLoad, List.filter_eq_self.mpr (by simpa using hQuiet)]
  · intro debug
    rw [hLoad, hNoting]
    rfl
  · rw [hLoad, hNoting,
      List.filter_eq_nil_iff.mpr (by simpa using hQuiet)]
    rfl
  · rw [hLoad, hNoting]
    exact (List.append_nil _).symm
  · rw [hLoad, hNoting]
    exact (List.append_nil _).symm
  · rw [hLoad, hNoting]
    exact (List.append_nil _).symm

theorem tracesMade
    {factory : F.State}
    {options : Options}
    (hOperates : Operates (.empty factory options) r)
    (text : String) :
    r.TracesMade text := by
  cases hFile : Parser.file (.ofText text.toList r.options) with
  | ok decls p => exact tracesMade_of_ok hOperates.isConsistent hFile
  | error d p => exact tracesMade_of_error hFile

/- A subgraph and an edge that are met again are not made again. -/
theorem tracesMade_metAgain :
    let r : Registry .plain :=
      ((plain {}).load "graph \x7b a -- b \x7d").registry
    let text : String :=
      "strict graph \x7b subgraph s \x7b a \x7d " ++
        "subgraph s \x7b b \x7d a -- b a -- b \x7d"
    Operates (empty () {}) r ∧ r.TracesMade text ∧
      (r.noting.load text).registry.made =
        [.graph ⟨1⟩, .graph ⟨2⟩, .node ⟨2⟩, .node ⟨3⟩,
          .edge ⟨1⟩] := by
  intro r text
  have hOperates : Operates (empty () {}) r :=
    .load "graph \x7b a -- b \x7d" .none
  exact ⟨hOperates, tracesMade hOperates text, by decide +kernel⟩

end Registry

end DotLang
