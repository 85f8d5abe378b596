import DotLang.Proofs.Registry.FanOut
import DotLang.Proofs.Registry.Told

/-
  This file proves that statements leave all graphs as they are,
  apart from the graph in which they are run and those inside it,
  and that nodes and edges which are there keep what they are.

  A node takes attributes of statements about its name, and new
  edges.  An edge takes attributes only where a strict graph has
  no second one.

  Key definitions include:
    * `Stmt.givenTo`
    * `Registry.MayMerge`
    * `Registry.StaysInside`

  Key theorems include:
    * `Registry.StaysInside.trans`
    * `Registry.StaysInside.outward`
    * `subgraph_staysInside`
    * `Stmt.run_staysInside`
    * `directed_roots_runGraphs`
-/

------------------------------------------------------------
-- Attributes of Nodes
------------------------------------------------------------

namespace DotLang

section Giving

variable (name : String)

mutual

/- What the node statements in a text give to nodes of a name. -/
def Endpoint.givenTo : Endpoint → List (List Attribute)
| .node _ => []
| .subgraph _ body => bodyGivenTo body

def stepsGivenTo : List EdgeStep → List (List Attribute)
| [] => []
| .mk _ _ head :: rest => head.givenTo ++ stepsGivenTo rest

def Stmt.givenTo : Stmt → List (List Attribute)
| .edge tail steps _ => tail.givenTo ++ stepsGivenTo steps
| .node ref attributes =>
    if ref.name = name then [attributes] else []
| .defaults _ _ => []
| .assign _ => []
| .subgraph _ body => bodyGivenTo body

def bodyGivenTo : List Stmt → List (List Attribute)
| [] => []
| stmt :: rest => stmt.givenTo ++ bodyGivenTo rest

end

end Giving

------------------------------------------------------------
-- Staying Inside a Graph
------------------------------------------------------------

namespace Registry

variable {F : Factory} {r s t : Registry F} {c g : GraphId}
variable {given given' : String → List (List Attribute)}

theorem ne_of_not_mem_extent
    {h : GraphId}
    (hOutside : h ∉ r.extent g) :
    h ≠ g := by
  rintro rfl
  exact hOutside List.mem_cons_self

/-
  A strict graph, which is the given one or inside it, mentions
  both ends of the edge, so that statements in it may give the
  edge attributes instead of making another one.
-/
def MayMerge (r : Registry F) (c : GraphId) (e : EdgeId) : Prop :=
  ∃ g ∈ r.extent c,
    (r.graph g).strict = true ∧
      (r.edge e).tail ∈ (r.graph g).members ∧
      (r.edge e).head ∈ (r.graph g).members

/-
  Steps that leave all graphs as they are, apart from one graph
  and those inside it.  Old nodes take some of the attributes
  that are given to their names, and new edges.
-/
structure StaysInside
    (c : GraphId)
    (given : String → List (List Attribute))
    (r s : Registry F) : Prop where
  steps : Steps r s
  roots : s.roots = r.roots
  graph :
    ∀ h : GraphId, h ∉ s.extent c → s.graph h = r.graph h
  name :
    ∀ {n : NodeId},
      r.HasNode n → (s.node n).name = (r.node n).name
  owner :
    ∀ {n : NodeId},
      r.HasNode n → (s.node n).owner = (r.node n).owner
  attributes :
    ∀ {n : NodeId},
      r.HasNode n →
        ∃ taken : List (List Attribute),
          taken.Sublist (given (r.node n).name) ∧
            (s.node n).attributes =
              (r.node n).attributes.setAll taken.flatten
  edge :
    ∀ {e : EdgeId},
      r.HasEdge e →
        ∃ merged : List Attribute,
          s.edge e = (r.edge e).setAttributes merged ∧
            (merged ≠ [] → s.MayMerge c e)

/- Nodes and edges that stay as they are take nothing. -/
theorem Steps.staysInside
    (hSteps : Steps r s)
    (hRoots : s.roots = r.roots)
    (hGraph : ∀ h, h ∉ s.extent c → s.graph h = r.graph h)
    (hNode : ∀ n, r.HasNode n → s.node n = r.node n)
    (hEdge : ∀ e, r.HasEdge e → s.edge e = r.edge e) :
    StaysInside c (fun _ => []) r s where
  steps := hSteps
  roots := hRoots
  graph := hGraph
  name hn := congrArg Node.name (hNode _ hn)
  owner hn := congrArg Node.owner (hNode _ hn)
  attributes hn :=
    ⟨[], List.Sublist.refl _,
      congrArg Node.attributes (hNode _ hn)⟩
  edge he := ⟨[], hEdge _ he, fun hSome => absurd rfl hSome⟩

theorem StaysInside.refl
    (c : GraphId)
    (r : Registry F) :
    StaysInside c (fun _ => []) r r :=
  Steps.refl.staysInside rfl (fun _ _ => rfl) (fun _ _ => rfl)
    (fun _ _ => rfl)

theorem StaysInside.mono
    (h : StaysInside c given r s)
    (hGiven : ∀ name, (given name).Sublist (given' name)) :
    StaysInside c given' r s where
  steps := h.steps
  roots := h.roots
  graph := h.graph
  name := h.name
  owner := h.owner
  attributes hn := by
    rcases h.attributes hn with ⟨taken, hTaken, hEq⟩
    exact ⟨taken, hTaken.trans (hGiven _), hEq⟩
  edge := h.edge

/- Graphs that grow inside a growing graph may still merge. -/
theorem MayMerge.of_steps
    {d : GraphId}
    {e : EdgeId}
    (h : s.MayMerge c e)
    (hSteps : Steps s t)
    (hs : s.IsConsistent)
    (hc : s.HasGraph c)
    (he : s.HasEdge e)
    (hExtent : s.extent c ⊆ t.extent d) :
    t.MayMerge d e := by
  rcases h with ⟨g, hInside, hStrict, hTail, hHead⟩
  have hg := ((hs.isForest.mem_extent hc).mp hInside).1
  have hGrows := hSteps.retains.grows
  rcases Prod.ext_iff.mp (hSteps.retains.ends he) with
    ⟨hSameTail, hSameHead⟩
  refine
    ⟨g, hExtent hInside, (hGrows.strict hg).trans hStrict, ?_, ?_⟩
  · rw [show (t.edge e).tail = (s.edge e).tail from hSameTail]
    exact hGrows.members hg hTail
  · rw [show (t.edge e).head = (s.edge e).head from hSameHead]
    exact hGrows.members hg hHead

theorem StaysInside.trans
    (h : StaysInside c given r s)
    (h' : StaysInside c given' s t)
    (hs : s.IsConsistent)
    (hc : s.HasGraph c) :
    StaysInside c (fun name => given name ++ given' name) r t where
  steps := h.steps.trans h'.steps
  roots := h'.roots.trans h.roots
  graph f hOutside := by
    have hExtent :=
      h'.steps.retains.grows.extent_subset hs.isForest
        (h'.steps.isConsistent hs).isForest hc
    exact (h'.graph f hOutside).trans
      (h.graph f fun hInside => hOutside (hExtent hInside))
  name hn :=
    (h'.name (h.steps.hasNode hn)).trans (h.name hn)
  owner hn :=
    (h'.owner (h.steps.hasNode hn)).trans (h.owner hn)
  attributes hn := by
    rcases h.attributes hn with ⟨taken, hTaken, hEq⟩
    rcases h'.attributes (h.steps.hasNode hn) with
      ⟨taken', hTaken', hEq'⟩
    rw [h.name hn] at hTaken'
    refine ⟨taken ++ taken', hTaken.append hTaken', ?_⟩
    rw [hEq', hEq, List.flatten_append,
      AttributeTable.setAll_append]
  edge {e} he := by
    have he' := h.steps.retains.hasEdge he
    rcases h.edge he with ⟨merged, hEq, hMay⟩
    rcases h'.edge he' with ⟨merged', hEq', hMay'⟩
    refine ⟨merged ++ merged', ?_, ?_⟩
    · rw [hEq', hEq, Edge.setAttributes, Edge.setAttributes,
        Edge.setAttributes, AttributeTable.setAll_append]
    · intro hSome
      by_cases hLast : merged' = []
      · rw [hLast, List.append_nil] at hSome
        exact (hMay hSome).of_steps h'.steps hs hc he'
          (h'.steps.retains.grows.extent_subset hs.isForest
            (h'.steps.isConsistent hs).isForest hc)
      · exact hMay' hLast

/- What stays inside a subgraph stays in the graph around it. -/
theorem StaysInside.outward
    (h : StaysInside c given r s)
    (hr : r.IsConsistent)
    (hParent : (s.graph c).parent = some g) :
    StaysInside g given r s := by
  have hs := h.steps.isConsistent hr
  have hForest := hs.isForest
  have hc := hasGraph_of_parent hParent
  have hg := hForest.hasGraph_parent hParent
  have hExtent :=
    hForest.extent_subset hg (hForest.mem_extent_of_parent hParent)
  refine
    { steps := h.steps
      roots := h.roots
      graph := fun f hOutside =>
        h.graph f fun hInside => hOutside (hExtent hInside)
      name := h.name
      owner := h.owner
      attributes := h.attributes
      edge := ?_ }
  intro e he
  rcases h.edge he with ⟨merged, hEq, hMay⟩
  refine ⟨merged, hEq, fun hSome => ?_⟩
  exact (hMay hSome).of_steps .refl hs hc
    (h.steps.retains.hasEdge he) hExtent

end Registry

------------------------------------------------------------
-- Work of a Build
------------------------------------------------------------

open Registry

namespace Build

variable {F : Factory} {b : Build F} {scope : GraphId}

theorem resolveNode_staysInside
    (h : b.registry.IsConsistent)
    (hScope : b.registry.HasGraph scope)
    (name : String) :
    StaysInside scope (fun _ => []) b.registry
      (b.resolveNode scope name).2.registry := by
  have hSteps := (resolveNode_steps h hScope name).1
  cases hFind : b.registry.resolveNode? scope name with
  | none =>
      rw [resolveNode_of_none hFind] at hSteps ⊢
      refine hSteps.staysInside rfl ?_
        (fun n hn => node_declareNode_of_hasNode hn scope name)
        (fun _ _ => rfl)
      intro f hOutside
      have hOther := ne_of_not_mem_extent hOutside
      exact (graph_modifyGraph_of_ne hOther _).trans
        (graph_modifyGraph_of_ne hOther _)
  | some n =>
      rw [resolveNode_of_some hFind] at hSteps ⊢
      refine hSteps.staysInside rfl ?_ (fun _ _ => rfl)
        (fun _ _ => rfl)
      intro f hOutside
      exact graph_modifyGraph_of_ne
        (ne_of_not_mem_extent hOutside) _

/- A subgraph that is made is inside the graph around it. -/
theorem openSubgraph_staysInside
    (h : b.registry.IsConsistent)
    (hScope : b.registry.HasGraph scope)
    (name : String) :
    StaysInside scope (fun _ => []) b.registry
      (b.openSubgraph scope name).2.registry := by
  have hSteps := (openSubgraph_steps h hScope name).1
  have hParent := parent_openSubgraph h.isForest hScope name
  rcases openSubgraph_cases b scope name with
    ⟨g, -, -, hOpen⟩ | ⟨-, hOpen⟩
  · rw [hOpen]
    exact .refl scope b.registry
  · rw [hOpen] at hSteps hParent ⊢
    have hInside :=
      (hSteps.isConsistent h).isForest.mem_extent_of_parent hParent
    refine hSteps.staysInside ?_ ?_ ?_ ?_
    · exact (roots_addGraph _ (some scope)).trans (if_neg nofun)
    · intro f hOutside
      have hNew : f ≠ b.registry.nextGraph := by
        rintro rfl
        exact hOutside hInside
      refine (graph_addGraph_some _ hScope f).trans ?_
      rw [if_neg hNew, if_neg (ne_of_not_mem_extent hOutside)]
    · exact fun n _ => node_addGraph _ (some scope) n
    · exact fun e _ => edge_addGraph _ (some scope) e

theorem adoptMembers_staysInside
    (hScope : b.registry.HasGraph scope)
    {nodes : List NodeId}
    (hNodes : ∀ n ∈ nodes, b.registry.HasNode n) :
    StaysInside scope (fun _ => []) b.registry
      (b.adoptMembers scope nodes).registry := by
  have hAside :
      (b.adoptMembers scope nodes).registry.roots =
          b.registry.roots ∧
        (b.adoptMembers scope nodes).registry.nodes =
          b.registry.nodes ∧
        (b.adoptMembers scope nodes).registry.edges =
          b.registry.edges :=
    List.foldlRecOn
      (motive := fun b' : Build F =>
        b'.registry.roots = b.registry.roots ∧
          b'.registry.nodes = b.registry.nodes ∧
          b'.registry.edges = b.registry.edges)
      nodes _ ⟨rfl, rfl, rfl⟩ fun _ hBefore _ _ => hBefore
  refine (adoptMembers_steps hScope hNodes).staysInside hAside.1
    ?_ ?_ ?_
  · intro f hOutside
    exact graph_adoptMembers_of_ne b nodes
      (ne_of_not_mem_extent hOutside)
  · intro n _
    rw [node, node, hAside.2.1]
  · intro e _
    rw [edge, edge, hAside.2.2]

theorem checkArrow_staysInside
    (b : Build F)
    (scope : GraphId)
    (arrow : Arrow)
    (location : Location) :
    StaysInside scope (fun _ => []) b.registry
      (b.checkArrow scope arrow location).registry := by
  have hSteps := checkArrow_steps b scope arrow location
  rcases checkArrow_cases b scope arrow location with
    hCheck | ⟨d, hCheck⟩
  · rw [hCheck] at hSteps ⊢
    exact hSteps.staysInside rfl (fun _ _ => rfl) (fun _ _ => rfl)
      (fun _ _ => rfl)
  · rw [hCheck] at hSteps ⊢
    exact hSteps.staysInside rfl (fun _ _ => rfl) (fun _ _ => rfl)
      (fun _ _ => rfl)

theorem applyDefaults_staysInside
    (hScope : b.registry.HasGraph scope)
    (kind : EntityKind)
    (attributes : List Attribute) :
    StaysInside scope (fun _ => []) b.registry
      (b.applyDefaults scope kind attributes).registry := by
  have hTree := Moment.sameTree_applyDefaults b scope kind attributes
  rcases Moment.nodes_applyDefaults b scope kind attributes with
    ⟨hNodes, hEdges⟩
  refine (applyDefaults_steps hScope kind attributes).staysInside
    hTree.roots ?_ ?_ ?_
  · intro f hOutside
    exact (Moment.graph_applyDefaults hScope kind attributes f).trans
      (if_neg (ne_of_not_mem_extent hOutside))
  · intro n _
    rw [node, node, hNodes]
  · intro e _
    rw [edge, edge, hEdges]

/- Only nodes of the name that is written take the attributes. -/
theorem setNode_staysInside
    {n : NodeId}
    (hn : b.registry.HasNode n)
    {ref : NodeRef}
    (hName : (b.registry.node n).name = ref.name)
    (attributes : List Attribute) :
    StaysInside scope
      ((Stmt.node ref attributes).givenTo ·)
      b.registry
      (b.registry.modifyNode n (Node.setAttributes attributes)) where
  steps := .single (.setNode _ n _ hn fun _ => rfl)
  roots := rfl
  graph _ _ := rfl
  name _ := (sameShape_setNode n attributes).nodes.name _
  owner _ := (sameShape_setNode n attributes).nodes.owner _
  attributes {m} _ := by
    rw [node_modifyNode hn]
    by_cases hEq : m = n
    · refine ⟨[attributes], ?_, ?_⟩
      · rw [hEq, Stmt.givenTo, if_pos hName.symm]
      · rw [if_pos hEq, hEq, List.flatten_singleton]
        rfl
    · refine ⟨[], List.nil_sublist _, ?_⟩
      rw [if_neg hEq]
      rfl
  edge _ := ⟨[], rfl, fun hSome => absurd rfl hSome⟩

/- An edge that is found joins the two nodes. -/
theorem ends_mem_of_findEdge?_eq_some
    (h : b.registry.IsConsistent)
    {tail head : NodeId}
    {e : EdgeId}
    (hFind : b.registry.findEdge? tail head = some e)
    {nodes : List NodeId}
    (hTail : tail ∈ nodes)
    (hHead : head ∈ nodes) :
    b.registry.HasEdge e ∧
      (b.registry.edge e).tail ∈ nodes ∧
      (b.registry.edge e).head ∈ nodes := by
  rcases Option.or_eq_some_iff.mp hFind with hSome | ⟨-, hSome⟩
  · rcases h.listsEdges.mem_outEdges.mp
      (List.mem_of_find?_eq_some hSome) with ⟨he, rfl⟩
    have hEnd := List.find?_some hSome
    rw [decide_eq_true_eq] at hEnd
    exact ⟨he, hTail, hEnd ▸ hHead⟩
  · rcases h.listsEdges.mem_outEdges.mp
      (List.mem_of_find?_eq_some hSome) with ⟨he, rfl⟩
    have hEnd := List.find?_some hSome
    rw [Bool.and_eq_true, decide_eq_true_eq] at hEnd
    exact ⟨he, hHead, hEnd.2 ▸ hTail⟩

/- A new edge is listed at its graph and at its ends. -/
theorem addEdge_staysInside
    (hScope : b.registry.HasGraph scope)
    (attributes : AttributeTable)
    {tail head : NodeId}
    (hTail : b.registry.HasNode tail)
    (hHead : b.registry.HasNode head)
    (hSteps :
      Steps b.registry
        (b.makeEdge scope tail head attributes).registry) :
    StaysInside scope (fun _ => []) b.registry
      (b.makeEdge scope tail head attributes).registry := by
  have hNode := node_addEdge (g := scope) attributes hTail hHead
  refine
    { steps := hSteps
      roots := rfl
      graph := ?_
      name := fun {n} _ => (congrArg Node.name (hNode n) :)
      owner := fun {n} _ => (congrArg Node.owner (hNode n) :)
      attributes := fun {n} _ => ⟨[], List.Sublist.refl _,
        (congrArg Node.attributes (hNode n) :)⟩
      edge := ?_ }
  · intro f hOutside
    exact (graph_addEdge attributes hScope f).trans
      (if_neg (ne_of_not_mem_extent hOutside))
  · intro e he
    refine ⟨[], ?_, fun hSome => absurd rfl hSome⟩
    exact (edge_addEdge scope tail head attributes e).trans
      (if_neg he.ne_next)

/- A strict graph may merge into an edge that joins its members. -/
theorem setEdge_staysInside
    (hStrict : (b.registry.graph scope).strict = true)
    {e : EdgeId}
    (he : b.registry.HasEdge e)
    (hTail :
      (b.registry.edge e).tail ∈ (b.registry.graph scope).members)
    (hHead :
      (b.registry.edge e).head ∈ (b.registry.graph scope).members)
    (attributes : List Attribute)
    (hSteps :
      Steps b.registry
        (b.registry.modifyEdge e (Edge.setAttributes attributes))) :
    StaysInside scope (fun _ => []) b.registry
      (b.registry.modifyEdge e (Edge.setAttributes attributes)) := by
  have hEdge := edge_modifyEdge he (Edge.setAttributes attributes)
  refine
    { steps := hSteps
      roots := rfl
      graph := fun _ _ => rfl
      name := fun _ => rfl
      owner := fun _ => rfl
      attributes := fun _ => ⟨[], List.Sublist.refl _, rfl⟩
      edge := ?_ }
  intro d _
  by_cases hEq : d = e
  · subst hEq
    have hSame := (hEdge d).trans (if_pos rfl)
    refine ⟨attributes, hSame, fun _ => ?_⟩
    refine ⟨scope, List.mem_cons_self, hStrict, ?_, ?_⟩
    · rw [hSame]
      exact hTail
    · rw [hSame]
      exact hHead
  · exact ⟨[], (hEdge d).trans (if_neg hEq),
      fun hSome => absurd rfl hSome⟩

theorem connectPair_staysInside
    (h : b.registry.IsConsistent)
    (hScope : b.registry.HasGraph scope)
    (attributes : AttributeTable)
    {tail head : NodeId}
    (hTail : tail ∈ (b.registry.graph scope).members)
    (hHead : head ∈ (b.registry.graph scope).members) :
    StaysInside scope (fun _ => []) b.registry
      (b.connectPair scope attributes tail head).registry := by
  have hHasTail := h.listsNodes.hasNode hTail
  have hHasHead := h.listsNodes.hasNode hHead
  have hSteps :=
    connectPair_steps h hScope attributes hHasTail hHasHead
  rcases connectPair_cases b scope attributes tail head with
    ⟨e, hStrict, hFind, hConnect⟩ | ⟨-, hConnect⟩
  · rcases ends_mem_of_findEdge?_eq_some h hFind hTail hHead with
      ⟨he, hMemTail, hMemHead⟩
    rw [hConnect] at hSteps ⊢
    exact setEdge_staysInside hStrict he hMemTail hMemHead _ hSteps
  · rw [hConnect] at hSteps ⊢
    exact addEdge_staysInside hScope attributes hHasTail hHasHead
      hSteps

/- The node that a name is resolved to bears the name. -/
theorem name_resolveNode
    (hIndexed : b.registry.IsIndexed)
    (scope : GraphId)
    (name : String) :
    ((b.resolveNode scope name).2.registry.node
      (b.resolveNode scope name).1).name = name := by
  cases hFind : b.registry.resolveNode? scope name with
  | none =>
      rw [resolveNode_of_none hFind]
      change ((b.registry.declareNode scope name).node
        b.registry.nextNode).name = name
      rw [node_declareNode, if_pos rfl]
  | some n =>
      rw [resolveNode_of_some hFind]
      rcases hIndexed.exists_of_resolveNode?_eq_some hFind with
        ⟨_, -, -, hName⟩
      exact hName

theorem connect_staysInside
    (h : b.registry.IsConsistent)
    (hScope : b.registry.HasGraph scope)
    (attributes : AttributeTable)
    {tails heads : Ends}
    (hTails : tails.nodes ⊆ (b.registry.graph scope).members)
    (hHeads : heads.nodes ⊆ (b.registry.graph scope).members) :
    StaysInside scope (fun _ => []) b.registry
      (b.connect scope attributes tails heads).registry := by
  refine connect_induct
    (motive := fun b' =>
      StaysInside scope (fun _ => []) b.registry b'.registry)
    (.refl scope b.registry) ?_
  intro b' hBefore tail hTail head hHead
  have h' := hBefore.steps.isConsistent h
  have hScope' := hBefore.steps.hasGraph hScope
  have hMembers := hBefore.steps.retains.grows.members hScope
  exact hBefore.trans
    (connectPair_staysInside h' hScope' _ (hMembers (hTails hTail))
      (hMembers (hHeads hHead)))
    h' hScope'

end Build

------------------------------------------------------------
-- Running Statements
------------------------------------------------------------

section Running

variable {F : Factory}

/- From where a subgraph is open its text stays inside it. -/
theorem subgraph_staysInside
    {scope : GraphId}
    {b : Build F}
    (h : b.registry.IsConsistent)
    (hScope : b.registry.HasGraph scope)
    (name : String)
    {body : List Stmt}
    (hBody :
      ∀ {g : GraphId} {b : Build F},
        b.registry.IsConsistent →
          b.registry.HasGraph g →
          StaysInside g (bodyGivenTo · body)
            b.registry (runBody g b body).registry) :
    StaysInside (b.openSubgraph scope name).1
        (bodyGivenTo · body)
        (b.openSubgraph scope name).2.registry
        ((Stmt.subgraph name body).run scope b).registry ∧
      (((Stmt.subgraph name body).run scope b).registry.graph
        (b.openSubgraph scope name).1).parent = some scope := by
  let g : GraphId := (b.openSubgraph scope name).1
  let opened : Build F := (b.openSubgraph scope name).2
  let inside : Build F := opened.update (·.pushScope g)
  rcases Build.openSubgraph_steps h hScope name with ⟨hOpen, hg⟩
  have hOpened := hOpen.isConsistent h
  have hPush :
      StaysInside g (fun _ => []) opened.registry inside.registry :=
    (Steps.single (.pushScope _ g hg)).staysInside rfl
      (fun _ _ => rfl) (fun _ _ => rfl) (fun _ _ => rfl)
  have hInside := hPush.steps.isConsistent hOpened
  have hRun := hBody hInside hg
  have hRan := hRun.steps.isConsistent hInside
  have hPop :
      StaysInside g (fun _ => []) (runBody g inside body).registry
        (runBody g inside body).registry.popScope :=
    (Steps.single (.popScope _)).staysInside rfl
      (fun _ _ => rfl) (fun _ _ => rfl) (fun _ _ => rfl)
  have hAll := (hPush.trans hRun hInside hg).trans hPop hRan
    (hRun.steps.hasGraph hg)
  have hParent : (opened.registry.graph g).parent = some scope :=
    Build.parent_openSubgraph h.isForest hScope name
  refine ⟨hAll.mono fun name => ?_, ?_⟩
  · rw [List.nil_append, List.append_nil]
  · exact (hAll.steps.retains.grows.parent hg).trans hParent

/- In the graph around it a subgraph is opened and closed. -/
theorem subgraph_staysAround
    {scope : GraphId}
    {b : Build F}
    (h : b.registry.IsConsistent)
    (hScope : b.registry.HasGraph scope)
    (name : String)
    {body : List Stmt}
    (hBody :
      ∀ {g : GraphId} {b : Build F},
        b.registry.IsConsistent →
          b.registry.HasGraph g →
          StaysInside g (bodyGivenTo · body)
            b.registry (runBody g b body).registry) :
    StaysInside scope (bodyGivenTo · body) b.registry
      ((Stmt.subgraph name body).run scope b).registry := by
  have hOpen := Build.openSubgraph_staysInside h hScope name
  have hOpened := hOpen.steps.isConsistent h
  rcases subgraph_staysInside h hScope name hBody with
    ⟨hRun, hParent⟩
  exact hOpen.trans (hRun.outward hOpened hParent) hOpened
    (hOpen.steps.hasGraph hScope)

/- The nodes at an end are members of the graph around it. -/
theorem Endpoint.run_members
    {scope : GraphId}
    {b : Build F}
    (h : b.registry.IsConsistent)
    (hScope : b.registry.HasGraph scope)
    (e : Endpoint) :
    (e.run scope b).1.nodes ⊆
      ((e.run scope b).2.registry.graph scope).members := by
  rcases Endpoint.stage_gainsPairs h hScope e with
    ⟨-, hNodes, hMembers⟩
  rw [hNodes]
  exact hMembers

mutual

theorem Endpoint.run_staysInside
    {scope : GraphId}
    {b : Build F}
    (h : b.registry.IsConsistent)
    (hScope : b.registry.HasGraph scope) :
    ∀ e : Endpoint,
      StaysInside scope (e.givenTo ·) b.registry
        (e.run scope b).2.registry
| .node ref => Build.resolveNode_staysInside h hScope ref.name
| .subgraph name body => by
    have hRun := subgraph_staysAround h hScope name
      (fun h hg => runBody_staysInside h hg body)
    have h' := hRun.steps.isConsistent h
    have hScope' := hRun.steps.hasGraph hScope
    have hAdopt := Build.adoptMembers_staysInside hScope'
      fun _ =>
        h'.listsNodes.hasNode (g := (b.openSubgraph scope name).1)
    exact (hRun.trans hAdopt h' hScope').mono fun name => by
      rw [List.append_nil, Endpoint.givenTo]

theorem runSteps_staysInside
    {scope : GraphId}
    (attributes : AttributeTable)
    {tails : Build.Ends}
    {b : Build F}
    (h : b.registry.IsConsistent)
    (hScope : b.registry.HasGraph scope)
    (hTails : tails.nodes ⊆ (b.registry.graph scope).members) :
    ∀ steps : List EdgeStep,
      StaysInside scope (stepsGivenTo · steps)
        b.registry (runSteps scope attributes tails b steps).registry
| [] => .refl scope b.registry
| .mk arrow location head :: rest => by
    have hArrow :=
      Build.checkArrow_staysInside b scope arrow location
    have h' := hArrow.steps.isConsistent h
    have hScope' := hArrow.steps.hasGraph hScope
    have hHead := Endpoint.run_staysInside h' hScope' head
    have hHeads := Endpoint.run_members h' hScope' head
    have hResolved := hHead.steps.isConsistent h'
    have hScope'' := hHead.steps.hasGraph hScope'
    have hBefore := hArrow.trans hHead h' hScope'
    have hConnect := Build.connect_staysInside hResolved hScope''
      attributes
      (List.Subset.trans hTails
        (hBefore.steps.retains.grows.members hScope))
      hHeads
    have hConnected := hConnect.steps.isConsistent hResolved
    have hRest := runSteps_staysInside attributes hConnected
      (hConnect.steps.hasGraph hScope'')
      (List.Subset.trans hHeads
        (hConnect.steps.retains.grows.members hScope''))
      rest
    have hAll :=
      (hBefore.trans hConnect hResolved hScope'').trans hRest
        hConnected (hConnect.steps.hasGraph hScope'')
    exact hAll.mono fun name => by
      rw [List.nil_append, List.append_nil, stepsGivenTo]

theorem Stmt.run_staysInside
    {scope : GraphId}
    {b : Build F}
    (h : b.registry.IsConsistent)
    (hScope : b.registry.HasGraph scope) :
    ∀ stmt : Stmt,
      StaysInside scope (stmt.givenTo ·) b.registry
        (stmt.run scope b).registry
| .edge tail steps attributes => by
    have hTail := Endpoint.run_staysInside h hScope tail
    have h' := hTail.steps.isConsistent h
    have hScope' := hTail.steps.hasGraph hScope
    exact hTail.trans
      (runSteps_staysInside _ h' hScope'
        (Endpoint.run_members h hScope tail) steps)
      h' hScope'
| .node ref attributes => by
    have hResolve :=
      Build.resolveNode_staysInside h hScope ref.name
    have h' := hResolve.steps.isConsistent h
    exact hResolve.trans
      (Build.setNode_staysInside
        (Build.resolveNode_steps h hScope ref.name).2
        (Build.name_resolveNode h.isIndexed scope ref.name) attributes)
      h' (hResolve.steps.hasGraph hScope)
| .defaults kind attributes =>
    Build.applyDefaults_staysInside hScope kind attributes
| .assign attr => by
    have hSteps := Stmt.run_steps h hScope (.assign attr)
    refine hSteps.staysInside rfl ?_ (fun _ _ => rfl)
      (fun _ _ => rfl)
    intro f hOutside
    exact graph_modifyGraph_of_ne (ne_of_not_mem_extent hOutside) _
| .subgraph name body =>
    subgraph_staysAround h hScope name
      (fun h hg => runBody_staysInside h hg body)

theorem runBody_staysInside
    {scope : GraphId}
    {b : Build F}
    (h : b.registry.IsConsistent)
    (hScope : b.registry.HasGraph scope) :
    ∀ body : List Stmt,
      StaysInside scope (bodyGivenTo · body) b.registry
        (runBody scope b body).registry
| [] => .refl scope b.registry
| stmt :: rest => by
    have hStmt := Stmt.run_staysInside h hScope stmt
    have h' := hStmt.steps.isConsistent h
    have hScope' := hStmt.steps.hasGraph hScope
    exact hStmt.trans (runBody_staysInside h' hScope' rest) h' hScope'

end

/- A declaration makes one top level graph, of its own kind. -/
theorem GraphDecl.run_root
    {b : Build F}
    (h : b.registry.IsConsistent)
    (decl : GraphDecl) :
    (decl.run b).registry.roots =
        b.registry.roots ++ [b.registry.nextGraph] ∧
      ((decl.run b).registry.graph
        b.registry.nextGraph).directed = decl.directed := by
  let g : GraphId := b.registry.nextGraph
  let opened : Build F :=
    (b.makeGraph (.new decl.name decl.directed decl.strict) none).2
  let inside : Build F := opened.update (·.pushScope g)
  have hg : opened.registry.HasGraph g :=
    (hasGraph_addGraph _).mpr (.inr rfl)
  have hOpen : Step b.registry opened.registry :=
    .addGraph _ _ none (Graph.isBlank_new _ _ _) nofun
  have hSteps : Steps b.registry inside.registry :=
    .tail (.single hOpen) (.pushScope _ g hg)
  have hRun := runBody_staysInside (b := inside)
    (hSteps.isConsistent h) hg decl.body
  have hRoots :
      opened.registry.roots = b.registry.roots ++ [g] :=
    roots_addGraph _ none
  have hNew :
      opened.registry.graph g =
        .new decl.name decl.directed decl.strict :=
    graph_addGraph_next nofun
  refine ⟨hRun.roots.trans hRoots, ?_⟩
  exact (hRun.steps.retains.grows.directed hg).trans
    (congrArg Graph.directed hNew)

/- The top level graphs are of the declared kinds, in order. -/
theorem directed_roots_runGraphs
    {r : Registry F}
    (h : r.IsConsistent)
    (decls : List GraphDecl) :
    ((runGraphs r decls).registry.roots.map fun g =>
        ((runGraphs r decls).registry.graph g).directed) =
      (r.roots.map fun g => (r.graph g).directed) ++
        decls.map GraphDecl.directed := by
  suffices hAll :
      ∀ b : Build F,
        b.registry.IsConsistent →
          let s := (decls.foldl GraphDecl.run b).registry
          (s.roots.map fun g => (s.graph g).directed) =
            (b.registry.roots.map fun g =>
                (b.registry.graph g).directed) ++
              decls.map GraphDecl.directed from
    hAll (.start r) h
  induction decls with
  | nil => exact fun _ _ => (List.append_nil _).symm
  | cons decl decls ih =>
      intro b hb s
      have hSteps := GraphDecl.run_steps hb decl
      rcases GraphDecl.run_root hb decl with ⟨hRoots, hDirected⟩
      have hOld :
          (b.registry.roots.map fun g =>
              ((decl.run b).registry.graph g).directed) =
            b.registry.roots.map fun g =>
              (b.registry.graph g).directed := by
        apply List.map_congr_left
        intro g hg
        exact hSteps.retains.grows.directed
          (hb.isForest.mem_roots.mp hg).1
      have hRest := ih (decl.run b) (hSteps.isConsistent hb)
      rw [hRoots, List.map_append, hOld, List.map_singleton,
        hDirected] at hRest
      rw [List.map_cons, List.append_cons]
      exact hRest

end Running

end DotLang
