import DotLang.Proofs.Registry.Inside
import Mathlib.Algebra.GroupWithZero.Nat

/-
  This file proves that an edge statement connects each node at
  one end with each node at the next one, and makes no edge
  elsewhere, apart from what its subgraphs make inside them.

  Each end is run on what the statement leaves when it is cut
  off before that end.  The nodes of a subgraph are those that
  it mentions when its own text has just been run.

  Key definitions include:
    * `fanOut`
    * `Stage`
    * `Stmt.stages`
    * `Registry.GainsPairs`
    * `Registry.FansOut`

  Key theorems include:
    * `Build.connect_gainsPairs`
    * `Endpoint.stage_gainsPairs`
    * `runSteps_gainsPairs`
    * `Stmt.run_edge_fansOut`
-/

------------------------------------------------------------
-- Pairs of Ends
------------------------------------------------------------

namespace DotLang

/-
  Each node of a list with each node of the next one, list after
  list and row after row.
-/
def fanOut (ends : List (List NodeId)) : List (NodeId × NodeId) :=
  (ends.zipWith (fun tails heads => tails ×ˢ heads) ends.tail).flatten

theorem fanOut_cons_cons
    (tails heads : List NodeId)
    (rest : List (List NodeId)) :
    fanOut (tails :: heads :: rest) =
      tails ×ˢ heads ++ fanOut (heads :: rest) :=
  rfl

theorem length_fanOut
    (ends : List (List NodeId)) :
    (fanOut ends).length =
      (ends.zipWith (fun tails heads => tails.length * heads.length)
        ends.tail).sum := by
  simp only [fanOut, List.length_flatten, List.map_zipWith,
    List.length_product]

------------------------------------------------------------
-- Stages
------------------------------------------------------------

/- An end of an edge statement, and the builds around its run. -/
structure Stage (F : Factory) where
  endpoint : Endpoint
  before : Build F
  after : Build F

section Stages

variable {F : Factory}

namespace Stage

/-
  The node that is mentioned, or the members that the subgraph
  has after the run.
-/
def nodes (scope : GraphId) (stage : Stage F) : List NodeId :=
  match stage.endpoint with
  | .node ref => [(stage.before.resolveNode scope ref.name).1]
  | .subgraph name _ =>
      (stage.after.registry.graph
        (stage.before.openSubgraph scope name).1).members

/- The subgraph with all graphs inside it, if there is one. -/
def inside (scope : GraphId) (stage : Stage F) : List GraphId :=
  match stage.endpoint with
  | .node _ => []
  | .subgraph name _ =>
      stage.after.registry.extent
        (stage.before.openSubgraph scope name).1

end Stage

/- The stage of an end that is run on a build. -/
def Endpoint.stage
    (scope : GraphId)
    (b : Build F)
    (e : Endpoint) : Stage F where
  endpoint := e
  before := b
  after := (e.run scope b).2

namespace Stmt

/-
  The stages of the ends that follow the steps that are passed.
  Each of them starts from what the passed steps have left.
-/
def stagesAfter
    (scope : GraphId)
    (b : Build F)
    (tail : Endpoint)
    (attributes : List Attribute) :
    List EdgeStep → List EdgeStep → List (Stage F)
| _, [] => []
| passed, .mk arrow location head :: rest =>
    let stopped := (edge tail passed attributes).run scope b
    head.stage scope (stopped.checkArrow scope arrow location) ::
      stagesAfter scope b tail attributes
        (passed ++ [.mk arrow location head]) rest

/- The stages of all ends of an edge statement. -/
def stages
    (scope : GraphId)
    (b : Build F)
    (tail : Endpoint)
    (steps : List EdgeStep)
    (attributes : List Attribute) : List (Stage F) :=
  tail.stage scope b :: stagesAfter scope b tail attributes [] steps

end Stmt

end Stages

------------------------------------------------------------
-- New Edges
------------------------------------------------------------

namespace Registry

variable {F : Factory} {r s t : Registry F} {c g : GraphId}
variable {pairs pairs' : List (NodeId × NodeId)}
variable {inside inside' : List GraphId}

/-
  Steps by which a graph gets new edges between pairs of nodes,
  in their order.  Other edges are made in the listed graphs.
-/
structure GainsPairs
    (g : GraphId)
    (pairs : List (NodeId × NodeId))
    (inside : List GraphId)
    (r s : Registry F) : Prop where
  steps : Steps r s
  made :
    ∃ made : List EdgeId,
      (s.graph g).edges = (r.graph g).edges ++ made ∧
        made.map s.ends = pairs ∧
        ∀ e ∈ made, s.HasEdge e ∧ ¬ r.HasEdge e
  elsewhere :
    ∀ h : GraphId,
      h ≠ g →
        h ∉ inside →
        (s.graph h).edges = (r.graph h).edges

theorem GainsPairs.trans
    (h : GainsPairs g pairs inside r s)
    (h' : GainsPairs g pairs' inside' s t) :
    GainsPairs g (pairs ++ pairs') (inside ++ inside') r t where
  steps := h.steps.trans h'.steps
  made := by
    rcases h.made with ⟨made, hEdges, hEnds, hNew⟩
    rcases h'.made with ⟨made', hEdges', hEnds', hNew'⟩
    refine ⟨made ++ made', ?_, ?_, ?_⟩
    · rw [hEdges', hEdges, List.append_assoc]
    · have hKept : made.map t.ends = made.map s.ends := by
        apply List.map_congr_left
        intro e he
        exact h'.steps.retains.ends (hNew e he).1
      rw [List.map_append, hKept, hEnds, hEnds']
    · intro e he
      rcases List.mem_append.mp he with he | he
      · exact ⟨h'.steps.retains.hasEdge (hNew e he).1,
          (hNew e he).2⟩
      · exact ⟨(hNew' e he).1, fun hOld =>
          (hNew' e he).2 (h.steps.retains.hasEdge hOld)⟩
  elsewhere f hOther hOutside := by
    rw [List.mem_append, not_or] at hOutside
    exact (h'.elsewhere f hOther hOutside.2).trans
      (h.elsewhere f hOther hOutside.1)

/- New edges are directed like their graph. -/
theorem GainsPairs.exists_made
    (h : GainsPairs g pairs inside r s)
    (hr : r.IsConsistent)
    (hg : r.HasGraph g) :
    ∃ made : List EdgeId,
      (s.graph g).edges = (r.graph g).edges ++ made ∧
        made.map s.ends = pairs ∧
        ∀ e ∈ made,
          ¬ r.HasEdge e ∧
            (s.edge e).directed = (r.graph g).directed := by
  have hListed := (h.steps.isConsistent hr).listsEdges
  rcases h.made with ⟨made, hEdges, hEnds, hNew⟩
  refine ⟨made, hEdges, hEnds, ?_⟩
  intro e he
  have hMem : e ∈ (s.graph g).edges := by
    rw [hEdges]
    exact List.mem_append_right _ he
  refine ⟨(hNew e he).2, ?_⟩
  rw [hListed.directed (hNew e he).1, (hListed.mem_edges.mp hMem).2]
  exact h.steps.retains.grows.directed hg

theorem Steps.gainsPairs
    (hSteps : Steps r s)
    (hEdges : ∀ h, (s.graph h).edges = (r.graph h).edges)
    (g : GraphId) :
    GainsPairs g [] [] r s where
  steps := hSteps
  made := ⟨[], by rw [hEdges, List.append_nil], rfl, nofun⟩
  elsewhere h _ _ := hEdges h

/- What is done inside a subgraph gives no edge to another graph. -/
theorem WorksInside.gainsPairs
    (h : WorksInside c r s)
    (hOutside : g ∉ s.extent c) :
    GainsPairs g [] (s.extent c) r s where
  steps := h.steps
  made := ⟨[], by rw [h.edges g hOutside, List.append_nil], rfl, nofun⟩
  elsewhere f _ := h.edges f

end Registry

------------------------------------------------------------
-- Edges Between Ends
------------------------------------------------------------

open Registry

namespace Build

variable {F : Factory} {b : Build F} {scope : GraphId}

/- Without a strict graph around it a pair is always connected. -/
theorem connectPair_gainsPairs
    (h : b.registry.IsConsistent)
    (hScope : b.registry.HasGraph scope)
    (hStrict : (b.registry.graph scope).strict = false)
    (attributes : AttributeTable)
    {tail head : NodeId}
    (hTail : b.registry.HasNode tail)
    (hHead : b.registry.HasNode head) :
    GainsPairs scope [(tail, head)] [] b.registry
      (b.connectPair scope attributes tail head).registry where
  steps := connectPair_steps h hScope attributes hTail hHead
  made := by
    have hMake :
        (b.connectPair scope attributes tail head).registry =
          (b.registry.addEdge scope tail head attributes).2 := by
      rw [connectPair_of_new fun h =>
        absurd h (Bool.eq_false_iff.mp hStrict)]
      rfl
    rw [hMake]
    refine ⟨[b.registry.nextEdge], ?_, ?_, ?_⟩
    · rw [graph_addEdge attributes hScope, if_pos rfl]
    · rw [List.map_singleton, Registry.ends, edge_addEdge,
        if_pos rfl]
    · intro e he
      rw [List.mem_singleton.mp he]
      exact ⟨(hasEdge_addEdge scope tail head attributes
          _).mpr (.inr rfl),
        fun hOld => hOld.ne_next rfl⟩
  elsewhere _ hOther _ :=
    edges_connectPair b attributes tail head hOther

theorem foldl_gainsPairs
    {pairs : List (NodeId × NodeId)}
    {f : Build F → NodeId × NodeId → Build F}
    (hPair :
      ∀ b' : Build F,
        Steps b.registry b'.registry →
          ∀ pair ∈ pairs,
            GainsPairs scope [pair] [] b'.registry
              (f b' pair).registry) :
    GainsPairs scope pairs [] b.registry
      (pairs.foldl f b).registry := by
  induction pairs generalizing b with
  | nil => exact Steps.refl.gainsPairs (fun _ => rfl) scope
  | cons pair pairs ih =>
      have hFirst := hPair b .refl pair List.mem_cons_self
      have hRest :
          GainsPairs scope pairs [] (f b pair).registry
            (pairs.foldl f (f b pair)).registry := by
        apply ih
        intro b' hSteps other hMem
        exact hPair b' (hFirst.steps.trans hSteps) other
          (List.mem_cons_of_mem _ hMem)
      exact hFirst.trans hRest

theorem connect_gainsPairs
    (h : b.registry.IsConsistent)
    (hScope : b.registry.HasGraph scope)
    (hStrict : (b.registry.graph scope).strict = false)
    (attributes : AttributeTable)
    {tails heads : Ends}
    (hTails : ∀ n ∈ tails.nodes, b.registry.HasNode n)
    (hHeads : ∀ n ∈ heads.nodes, b.registry.HasNode n) :
    GainsPairs scope (tails.nodes ×ˢ heads.nodes) [] b.registry
      (b.connect scope attributes tails heads).registry := by
  rw [connect_eq_foldl]
  apply foldl_gainsPairs
  rintro b' hSteps ⟨tail, head⟩ hMem
  rcases List.mem_product.mp hMem with ⟨hTail, hHead⟩
  have hStrict' : (b'.registry.graph scope).strict = false :=
    (hSteps.retains.grows.strict hScope).trans hStrict
  exact connectPair_gainsPairs (hSteps.isConsistent h)
    (hSteps.hasGraph hScope) hStrict' _
    (hSteps.hasNode (hTails _ hTail)) (hSteps.hasNode (hHeads _ hHead))

theorem graph_adoptMembers_of_ne
    (b : Build F)
    (nodes : List NodeId)
    {h : GraphId}
    (hOther : h ≠ scope) :
    (b.adoptMembers scope nodes).registry.graph h =
      b.registry.graph h := by
  refine List.foldlRecOn
    (motive := fun b' : Build F =>
      b'.registry.graph h = b.registry.graph h)
    nodes _ rfl ?_
  intro b' hBefore n _
  exact (graph_modifyGraph_of_ne hOther _).trans hBefore

end Build

------------------------------------------------------------
-- Ends of a Statement
------------------------------------------------------------

section Running

variable {F : Factory} {b : Build F} {scope : GraphId}

/-
  Running an end makes edges only inside its subgraph, and the
  nodes there become members.
-/
theorem Endpoint.stage_gainsPairs
    (h : b.registry.IsConsistent)
    (hScope : b.registry.HasGraph scope)
    (e : Endpoint) :
    GainsPairs scope [] ((e.stage scope b).inside scope) b.registry
        (e.run scope b).2.registry ∧
      (e.run scope b).1.nodes = (e.stage scope b).nodes scope ∧
      (e.stage scope b).nodes scope ⊆
        ((e.run scope b).2.registry.graph scope).members := by
  cases e with
  | node ref =>
      refine ⟨?_, rfl, ?_⟩
      · exact (Build.resolveNode_steps h hScope
          ref.name).1.gainsPairs
            (Build.edges_resolveNode b scope ref.name) scope
      · intro n hn
        rw [List.mem_singleton.mp hn]
        exact Build.mem_members_resolveNode h.isIndexed hScope
          ref.name
  | subgraph name body =>
      let g : GraphId := (b.openSubgraph scope name).1
      let ran : Build F := (Stmt.subgraph name body).run scope b
      let nodes : List NodeId := (ran.registry.graph g).members
      have hRun : WorksInside g b.registry ran.registry ∧
          (ran.registry.graph g).parent = some scope :=
        subgraph_worksInside h hScope name
          fun h hg => runBody_worksInside h hg body
      have h' := hRun.1.steps.isConsistent h
      have hScope' := hRun.1.steps.hasGraph hScope
      have hg := hasGraph_of_parent hRun.2
      have hAdopt :
          Steps ran.registry
            (ran.adoptMembers scope nodes).registry :=
        Build.adoptMembers_steps hScope'
          fun _ => h'.listsNodes.hasNode
      have hParent :=
        (hAdopt.retains.grows.parent hg).trans hRun.2
      have hOutside :=
        (hAdopt.isConsistent h').isForest.not_mem_extent_of_parent
          hParent
      have hInside := hRun.1.trans
        (hAdopt.worksInside (Build.edges_adoptMembers ran scope nodes)
          g)
        h' hg
      have hOther : g ≠ scope := by
        intro hEq
        exact hOutside (hEq ▸ List.mem_cons_self)
      have hKept :
          ((ran.adoptMembers scope nodes).registry.graph g).members =
            nodes := by
        rw [Build.graph_adoptMembers_of_ne ran nodes hOther]
      refine ⟨hInside.gainsPairs hOutside, hKept.symm, ?_⟩
      change ((ran.adoptMembers scope nodes).registry.graph g).members ⊆
        ((ran.adoptMembers scope nodes).registry.graph scope).members
      rw [hKept]
      intro n hn
      exact Build.adoptMembers_subset h'.isIndexed hScope' n
        (.inl hn)

/-
  A build in which the next edges leave the given ends in a
  graph that is not strict.
-/
structure Build.IsAtEnds
    (b : Build F)
    (scope : GraphId)
    (tails : Build.Ends) : Prop where
  isConsistent : b.registry.IsConsistent
  hasGraph : b.registry.HasGraph scope
  strict : (b.registry.graph scope).strict = false
  hasNode : ∀ n ∈ tails.nodes, b.registry.HasNode n

/- One step connects the ends that were reached with the next ones. -/
theorem Build.IsAtEnds.step
    {tails : Build.Ends}
    (h : b.IsAtEnds scope tails)
    (table : AttributeTable)
    (arrow : Arrow)
    (location : Location)
    (head : Endpoint) :
    let checked : Build F := b.checkArrow scope arrow location
    let heads : Build.Ends := (head.run scope checked).1
    let connected : Build F :=
      (head.run scope checked).2.connect scope table tails heads
    let stage : Stage F := head.stage scope checked
    connected.IsAtEnds scope heads ∧
      heads.nodes = stage.nodes scope ∧
      stage.nodes scope ⊆ (connected.registry.graph scope).members ∧
      GainsPairs scope (tails.nodes ×ˢ stage.nodes scope)
        (stage.inside scope) b.registry connected.registry := by
  intro checked heads connected stage
  have hArrow : GainsPairs scope [] [] b.registry checked.registry :=
    (Build.checkArrow_steps b scope arrow location).gainsPairs
      (fun g => by rw [Build.graph_checkArrow]) scope
  have hChecked := hArrow.steps.isConsistent h.isConsistent
  have hScope := hArrow.steps.hasGraph h.hasGraph
  rcases Endpoint.stage_gainsPairs hChecked hScope head with
    ⟨hHead, hEqual, hMembers⟩
  have hNodes : heads.nodes = stage.nodes scope := hEqual
  have hHeads := (Endpoint.run_steps hChecked hScope head).2
  have hBefore := hArrow.trans hHead
  have hScope' := hBefore.steps.hasGraph h.hasGraph
  have hConnect :
      GainsPairs scope (tails.nodes ×ˢ heads.nodes) []
        (head.run scope checked).2.registry connected.registry :=
    Build.connect_gainsPairs
      (hBefore.steps.isConsistent h.isConsistent) hScope'
      ((hBefore.steps.retains.grows.strict h.hasGraph).trans h.strict)
      table (fun n hn => hBefore.steps.hasNode (h.hasNode n hn))
      hHeads
  have hStep := hBefore.trans hConnect
  refine ⟨?_, hNodes, ?_, ?_⟩
  · exact
      { isConsistent := hStep.steps.isConsistent h.isConsistent
        hasGraph := hStep.steps.hasGraph h.hasGraph
        strict :=
          (hStep.steps.retains.grows.strict h.hasGraph).trans h.strict
        hasNode := fun n hn => hConnect.steps.hasNode (hHeads n hn) }
  · exact List.Subset.trans hMembers
      (hConnect.steps.retains.grows.members hScope')
  · simpa only [hNodes, List.append_nil, List.nil_append] using hStep

/-
  From wherever the passed steps have led, the steps that are
  left connect each end with the one before it.
-/
theorem runSteps_gainsPairs
    {tail : Endpoint}
    {attributes : List Attribute}
    {table : AttributeTable}
    {tails : Build.Ends}
    {reached : Build F}
    {passed : List EdgeStep}
    (hGoesOn :
      ∀ rest : List EdgeStep,
        (Stmt.edge tail (passed ++ rest) attributes).run scope b =
          runSteps scope table tails reached rest)
    (h : reached.IsAtEnds scope tails)
    (rest : List EdgeStep) :
    let stages :=
      Stmt.stagesAfter scope b tail attributes passed rest
    let s := (runSteps scope table tails reached rest).registry
    GainsPairs scope
        (fanOut (tails.nodes :: stages.map (Stage.nodes scope)))
        (stages.flatMap (Stage.inside scope)) reached.registry s ∧
      ∀ stage ∈ stages,
        stage.nodes scope ⊆ (s.graph scope).members := by
  induction rest generalizing passed tails reached with
  | nil =>
      exact ⟨Steps.refl.gainsPairs (fun _ => rfl) scope, nofun⟩
  | cons step rest ih =>
      rcases step with ⟨arrow, location, head⟩
      have hHere :
          (Stmt.edge tail passed attributes).run scope b =
            reached := by
        have hStop := hGoesOn []
        rwa [List.append_nil] at hStop
      rcases h.step table arrow location head with
        ⟨hNext, hNodes, hMembers, hStep⟩
      have hGoesOn' :
          ∀ rest : List EdgeStep,
            (Stmt.edge tail
                (passed ++ [.mk arrow location head] ++ rest)
                attributes).run scope b =
              runSteps scope table tails reached
                (.mk arrow location head :: rest) := by
        intro rest
        rw [List.append_assoc]
        exact hGoesOn (.mk arrow location head :: rest)
      rcases ih hGoesOn' hNext with ⟨hRest, hAll⟩
      rw [Stmt.stagesAfter, hHere]
      constructor
      · rw [List.map_cons, fanOut_cons_cons, List.flatMap_cons]
        rw [hNodes] at hRest
        exact hStep.trans hRest
      · intro stage hStage
        rcases List.mem_cons.mp hStage with rfl | hStage
        · exact List.Subset.trans hMembers
            (hRest.steps.retains.grows.members hNext.hasGraph)
        · exact hAll stage hStage

/-
  What an edge statement with the given stages makes of a
  registry.  The new edges of its graph come after the old ones
  and lead from each node of a stage to each of the next one.
-/
structure Registry.FansOut
    (r s : Registry F)
    (scope : GraphId)
    (stages : List (Stage F)) : Prop where
  edges :
    ∃ made : List EdgeId,
      (s.graph scope).edges = (r.graph scope).edges ++ made ∧
        made.map s.ends =
          fanOut (stages.map (Stage.nodes scope)) ∧
        made.length =
          ((stages.map (Stage.nodes scope)).zipWith
            (fun tails heads => tails.length * heads.length)
            (stages.map (Stage.nodes scope)).tail).sum ∧
        ∀ e ∈ made,
          ¬ r.HasEdge e ∧
            (s.edge e).directed = (r.graph scope).directed
  members :
    ∀ stage ∈ stages,
      stage.nodes scope ⊆ (s.graph scope).members
  elsewhere :
    ∀ h : GraphId,
      h ≠ scope →
        h ∉ stages.flatMap (Stage.inside scope) →
        (s.graph h).edges = (r.graph h).edges

/-
  An edge statement in a graph that is not strict makes an edge
  for each pair of nodes at ends that follow each other, whether
  these are nodes or subgraphs, and in the order of the text.
-/
theorem Stmt.run_edge_fansOut
    (factory : F.State)
    (options : Options)
    (hOperates : Operates (.empty factory options) b.registry)
    (hScope : b.registry.HasGraph scope)
    (hStrict : (b.registry.graph scope).strict = false)
    (tail : Endpoint)
    (steps : List EdgeStep)
    (attributes : List Attribute) :
    FansOut b.registry
      ((Stmt.edge tail steps attributes).run scope b).registry scope
      (Stmt.stages scope b tail steps attributes) := by
  have h := hOperates.isConsistent
  rcases Endpoint.stage_gainsPairs h hScope tail with
    ⟨hTail, hNodes, hMembers⟩
  have hAtEnds :
      (tail.run scope b).2.IsAtEnds scope (tail.run scope b).1 :=
    { isConsistent := hTail.steps.isConsistent h
      hasGraph := hTail.steps.hasGraph hScope
      strict :=
        (hTail.steps.retains.grows.strict hScope).trans hStrict
      hasNode := (Endpoint.run_steps h hScope tail).2 }
  have hGoesOn :
      ∀ rest : List EdgeStep,
        (Stmt.edge tail ([] ++ rest) attributes).run scope b =
          runSteps scope
            ((b.registry.graph scope).edgeDefaults.setAll attributes)
            (tail.run scope b).1 (tail.run scope b).2 rest :=
    fun _ => rfl
  rcases runSteps_gainsPairs hGoesOn hAtEnds steps with
    ⟨hSteps, hAll⟩
  rw [hNodes] at hSteps
  have hGains := hTail.trans hSteps
  refine ⟨?_, ?_, hGains.elsewhere⟩
  · rcases hGains.exists_made h hScope with
      ⟨made, hEdges, hEnds, hMade⟩
    refine ⟨made, hEdges, hEnds, ?_, hMade⟩
    rw [← length_fanOut]
    exact (List.length_map _).symm.trans (congrArg List.length hEnds)
  · intro stage hStage
    rcases List.mem_cons.mp hStage with rfl | hStage
    · exact List.Subset.trans hMembers
        (hSteps.steps.retains.grows.members hAtEnds.hasGraph)
    · exact hAll stage hStage

/-
  The last end opens the subgraph of the second one again, which
  has made an edge of its own, and mentions one more node there.
-/
theorem Stmt.run_edge_fansOut_reopened :
    let r : Registry .plain :=
      ((empty () {}).load
        ("digraph \x7b subgraph s \x7b a " ++
          "subgraph t \x7b b -> c \x7d \x7d \x7d")).registry
    let b : Build .plain := .start (r.pushScope ⟨0⟩)
    let tail : Endpoint :=
      .subgraph "" [.node ⟨"x", none⟩ [], .node ⟨"y", none⟩ []]
    let reopened : Endpoint :=
      .subgraph "s"
        [.edge (.node ⟨"z", none⟩)
          [.mk .directed default (.node ⟨"a", none⟩)] []]
    let steps : List EdgeStep :=
      [.mk .directed default reopened,
        .mk .directed default (.node ⟨"n", none⟩),
        .mk .directed default
          (.subgraph "s" [.node ⟨"w", none⟩ []])]
    let s : Registry .plain :=
      ((Stmt.edge tail steps []).run ⟨0⟩ b).registry
    FansOut b.registry s ⟨0⟩ (Stmt.stages ⟨0⟩ b tail steps []) ∧
      (Stmt.stages ⟨0⟩ b tail steps []).map (Stage.nodes ⟨0⟩) =
        [[⟨3⟩, ⟨4⟩], [⟨0⟩, ⟨5⟩], [⟨6⟩], [⟨0⟩, ⟨5⟩, ⟨7⟩]] ∧
      (s.graph ⟨0⟩).edges.length = 9 ∧
      (s.graph ⟨1⟩).edges.map s.ends = [(⟨5⟩, ⟨0⟩)] := by
  intro r b tail reopened steps s
  have hScope : r.HasGraph ⟨0⟩ := by
    decide +kernel
  have hOperates :
      Operates (empty () {} : Registry .plain) b.registry :=
    .step (.pushScope r ⟨0⟩ hScope) (.load _ .none)
  have hStrict : (b.registry.graph ⟨0⟩).strict = false := by
    decide +kernel
  refine ⟨Stmt.run_edge_fansOut (F := .plain) () {} hOperates hScope
    hStrict tail steps [], ?_⟩
  decide +kernel

end Running

end DotLang
