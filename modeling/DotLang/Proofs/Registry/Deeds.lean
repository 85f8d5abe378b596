import DotLang.Proofs.Registry.Chronicle

/-
  This file says which tables of attributes the deeds of a
  chronicle lead to, and proves that each step of a build leads
  from such tables to such tables.

  Defaults are lexically scoped.  A graph has the pairs that
  were set in the graphs around it before it was opened, and
  behind them those that were set in it so far.

  Key definitions include:
    * `pairsInForce`
    * `Moment.TellsGraphs`
    * `Moment.TellsNodes`
    * `Moment.TellsEdges`

  Key theorems include:
    * `pairsInForce_append`
    * `Moment.TellsGraphs.extend`
    * `Moment.TellsNodes.extend`
    * `Moment.TellsEdges.extend`
-/

------------------------------------------------------------
-- Pairs in Deeds
------------------------------------------------------------

namespace DotLang

namespace Deed

/- The pairs that a deed sets among the defaults of a graph. -/
def pairsForDefaults
    (kind : EntityKind)
    (g : GraphId) : Deed → List Attribute
| setDefaults scope kind' attributes =>
    if scope = g ∧ kind' = kind then attributes else []
| _ => []

/- The pairs that a deed sets among the attributes of a graph. -/
def pairsForGraph (g : GraphId) : Deed → List Attribute
| setDefaults scope kind attributes =>
    if scope = g ∧ kind = .graph then attributes else []
| assigned scope attr => if scope = g then [attr] else []
| _ => []

/- The pairs that a deed sets among the attributes of a node. -/
def pairsForNode (n : NodeId) : Deed → List Attribute
| nodeSet m attributes => if m = n then attributes else []
| _ => []

end Deed

/- No deed sets pairs of a graph. -/
def LeavesGraph (deeds : List Deed) (g : GraphId) : Prop :=
  deeds.flatMap (Deed.pairsForGraph g) = [] ∧
    ∀ kind, deeds.flatMap (Deed.pairsForDefaults kind g) = []

theorem LeavesGraph.append
    {deeds more : List Deed}
    {g : GraphId}
    (h : LeavesGraph deeds g)
    (h' : LeavesGraph more g) :
    LeavesGraph (deeds ++ more) g :=
  ⟨by rw [List.flatMap_append, h.1, h'.1, List.append_nil],
    fun kind => by
      rw [List.flatMap_append, h.2, h'.2, List.append_nil]⟩

/- What was done before a deed was done for the first time. -/
def deedsBefore (d : Deed) (deeds : List Deed) : List Deed :=
  deeds.takeWhile (· ≠ d)

/-
  The pairs in force as defaults of a graph, which comes first
  in the list, before the graphs around it.  When it was opened
  it took over what was in force around it.
-/
def pairsInForce
    (kind : EntityKind) :
    List GraphId → List Deed → List Attribute
| [], _ => []
| g :: around, deeds =>
    pairsInForce kind around (deedsBefore (.opened g) deeds) ++
      deeds.flatMap (Deed.pairsForDefaults kind g)

theorem deedsBefore_append
    {d : Deed}
    {deeds : List Deed}
    (hMem : d ∈ deeds)
    (more : List Deed) :
    deedsBefore d (deeds ++ more) = deedsBefore d deeds := by
  induction deeds with
  | nil => cases hMem
  | cons first deeds ih =>
      by_cases hEq : first = d
      · simp [deedsBefore, hEq]
      · have hRest := ih (List.mem_of_ne_of_mem (Ne.symm hEq) hMem)
        simpa [deedsBefore, hEq] using hRest

theorem deedsBefore_of_not_mem
    {d : Deed}
    {deeds : List Deed}
    (hNew : d ∉ deeds)
    (more : List Deed) :
    deedsBefore d (deeds ++ d :: more) = deeds := by
  induction deeds with
  | nil => simp [deedsBefore]
  | cons first deeds ih =>
      simp only [List.mem_cons, not_or] at hNew
      have hRest := ih hNew.2
      simpa [deedsBefore, Ne.symm hNew.1] using hRest

/- Later deeds change what is in force in a graph, not around it. -/
theorem pairsInForce_append
    {g : GraphId}
    {deeds : List Deed}
    (hOpened : .opened g ∈ deeds)
    (kind : EntityKind)
    (around : List GraphId)
    (more : List Deed) :
    pairsInForce kind (g :: around) (deeds ++ more) =
      pairsInForce kind (g :: around) deeds ++
        more.flatMap (Deed.pairsForDefaults kind g) := by
  rw [pairsInForce, pairsInForce, deedsBefore_append hOpened,
    List.flatMap_append, List.append_assoc]

------------------------------------------------------------
-- Pairs of Edge Statements
------------------------------------------------------------

/- The pair that a port of an edge makes. -/
def portPairs
    (name : String)
    (port : Option String) : List Attribute :=
  port.toList.map fun port => ⟨name, .plain port⟩

theorem withPort_eq
    (name : String)
    (port : Option String)
    (t : AttributeTable) :
    Build.withPort name port t = t.setAll (portPairs name port) := by
  cases port <;> rfl

namespace Connection

/- The pairs of the statement, and then those of the ports. -/
def pairs (c : Connection) : List Attribute :=
  c.attributes ++ portPairs "tailport" c.tailPort ++
    portPairs "headport" c.headPort

/- The edge is one of those that were made. -/
def Made (c : Connection) (e : EdgeId) : Prop :=
  c.first ≤ e.index ∧ e.index < c.last

end Connection

------------------------------------------------------------
-- Tables in a Moment
------------------------------------------------------------

namespace Moment

variable {F : Factory}

/-
  The tables of a graph.  Its attributes start as the defaults
  for graphs around it when it is opened.
-/
structure TellsGraphs (m : Moment F) : Prop where
  opened :
    ∀ {g : GraphId}, .opened g ∈ m.deeds ↔ m.registry.HasGraph g
  unopened :
    ∀ {g : GraphId},
      ¬ m.registry.HasGraph g → LeavesGraph m.deeds g
  defaults :
    ∀ {g : GraphId},
      m.registry.HasGraph g →
        ∀ kind : EntityKind,
          (m.registry.graph g).defaults kind =
            .ofList
              (pairsInForce kind (m.registry.lineage g) m.deeds)
  attributes :
    ∀ {g : GraphId},
      m.registry.HasGraph g →
        (m.registry.graph g).attributes =
          .ofList
            (pairsInForce .graph (m.registry.lineage g).tail
                (deedsBefore (.opened g) m.deeds) ++
              m.deeds.flatMap (Deed.pairsForGraph g))

/-
  The table of a node.  It starts as the defaults for nodes in
  its owner when the node is made.
-/
structure TellsNodes (m : Moment F) : Prop where
  nodeMade :
    ∀ {n : NodeId}, .nodeMade n ∈ m.deeds ↔ m.registry.HasNode n
  unmade :
    ∀ {n : NodeId},
      ¬ m.registry.HasNode n →
        m.deeds.flatMap (Deed.pairsForNode n) = []
  attributes :
    ∀ {n : NodeId},
      m.registry.HasNode n →
        (m.registry.node n).attributes =
          .ofList
            (pairsInForce .node
                (m.registry.lineage (m.registry.node n).owner)
                (deedsBefore (.nodeMade n) m.deeds) ++
              m.deeds.flatMap (Deed.pairsForNode n))

/-
  The table of an edge, unless its graph is strict.  It starts
  as the defaults for edges when the statement began.
-/
structure TellsEdges (m : Moment F) : Prop where
  begun_le :
    ∀ {c : Connection},
      .connected c ∈ m.deeds → c.begun ≤ m.deeds.length
  last_le :
    ∀ {c : Connection},
      .connected c ∈ m.deeds → c.last ≤ m.registry.edges.size
  exists_made :
    ∀ {e : EdgeId},
      m.registry.HasEdge e → ∃ c, .connected c ∈ m.deeds ∧ c.Made e
  hasScope :
    ∀ {c : Connection},
      .connected c ∈ m.deeds → m.registry.HasGraph c.scope
  owner :
    ∀ {c : Connection} {e : EdgeId},
      .connected c ∈ m.deeds →
        c.Made e →
        (m.registry.edge e).owner = c.scope
  attributes :
    ∀ {c : Connection} {e : EdgeId},
      .connected c ∈ m.deeds →
        c.Made e →
        (m.registry.graph c.scope).strict = false →
        (m.registry.edge e).attributes =
          .ofList
            (pairsInForce .edge (m.registry.lineage c.scope)
                (m.deeds.take c.begun) ++
              c.pairs)

/- All tables are as the deeds tell. -/
structure IsTold (m : Moment F) : Prop where
  graphs : m.TellsGraphs
  nodes : m.TellsNodes
  edges : m.TellsEdges

------------------------------------------------------------
-- Graphs Through Steps
------------------------------------------------------------

open Registry

variable {r s : Registry F} {deeds more : List Deed}

/-
  The tables of graphs are written as the deeds say, and no graph
  is made.
-/
structure WritesGraphs
    (more : List Deed)
    (r s : Registry F) : Prop where
  opened : ∀ g, .opened g ∉ more
  hasGraph : ∀ g, s.HasGraph g ↔ r.HasGraph g
  leaves : ∀ g, ¬ r.HasGraph g → LeavesGraph more g
  defaults :
    ∀ g kind,
      (s.graph g).defaults kind =
        ((r.graph g).defaults kind).setAll
          (more.flatMap (Deed.pairsForDefaults kind g))
  attributes :
    ∀ g,
      (s.graph g).attributes =
        (r.graph g).attributes.setAll
          (more.flatMap (Deed.pairsForGraph g))

/- Tables that are written as the deeds say stay as they tell. -/
theorem TellsGraphs.extend
    (h : TellsGraphs ⟨r, deeds⟩)
    (hForest : r.IsForest)
    (hForest' : s.IsForest)
    (hGrows : Grows r s)
    (hWrites : WritesGraphs more r s) :
    TellsGraphs ⟨s, deeds ++ more⟩ where
  opened {g} := by
    rw [hWrites.hasGraph, ← h.opened, List.mem_append]
    simp [hWrites.opened g]
  unopened {g} hg := by
    rw [hWrites.hasGraph] at hg
    exact (h.unopened hg).append (hWrites.leaves g hg)
  defaults {g} hg kind := by
    rw [hWrites.hasGraph] at hg
    rw [hGrows.lineage_eq hForest hForest' hg,
      hForest.lineage_eq_cons hg,
      pairsInForce_append (h.opened.mpr hg),
      AttributeTable.ofList_append, ← hForest.lineage_eq_cons hg,
      ← h.defaults hg]
    exact hWrites.defaults g kind
  attributes {g} hg := by
    rw [hWrites.hasGraph] at hg
    rw [hGrows.lineage_eq hForest hForest' hg,
      deedsBefore_append (h.opened.mpr hg), List.flatMap_append,
      ← List.append_assoc, AttributeTable.ofList_append,
      ← h.attributes hg]
    exact hWrites.attributes g

/- The defaults that a graph starts with are those around it. -/
def StartsAs
    (r : Registry F)
    (graph : Graph)
    (parent : Option GraphId) : Prop :=
  graph.attributes = graph.graphDefaults ∧
    ∀ kind,
      graph.defaults kind =
        match parent with
        | none => .empty
        | some p => (r.graph p).defaults kind

/- A new graph starts with what is in force around it. -/
theorem TellsGraphs.defaults_around
    (h : TellsGraphs ⟨r, deeds⟩)
    (hForest : r.IsForest)
    {graph : Graph}
    {parent : Option GraphId}
    (hMay : r.MayAdd graph parent)
    (hStarts : StartsAs r graph parent)
    (kind : EntityKind) :
    graph.defaults kind =
      .ofList
        (pairsInForce kind
          ((r.addGraph graph parent).2.lineage
            r.nextGraph).tail deeds) := by
  have hForest' := hForest.addGraph hMay
  have hGrows : Grows r (r.addGraph graph parent).2 :=
    grows_addGraph hMay.hasParent
  have hParent' :
      ((r.addGraph graph parent).2.graph r.nextGraph).parent =
        parent := by
    rw [graph_addGraph_next hMay.hasParent]
  have hHasNext : (r.addGraph graph parent).2.HasGraph r.nextGraph :=
    (hasGraph_addGraph _).mpr (.inr rfl)
  rw [hStarts.2]
  cases hParent : parent with
  | none =>
      rw [hParent] at hParent' hHasNext
      rw [IsForest.lineage_of_root hHasNext hParent']
      rfl
  | some p =>
      have hp := hMay.hasParent p hParent
      rw [hParent] at hParent' hForest' hGrows
      rw [hForest'.lineage_of_parent hParent',
        hGrows.lineage_eq hForest hForest' hp]
      exact h.defaults hp kind

theorem TellsGraphs.open
    (h : TellsGraphs ⟨r, deeds⟩)
    (hForest : r.IsForest)
    {graph : Graph}
    {parent : Option GraphId}
    (hMay : r.MayAdd graph parent)
    (hStarts : StartsAs r graph parent) :
    TellsGraphs
      ⟨(r.addGraph graph parent).2,
        deeds ++ [.opened r.nextGraph]⟩ := by
  have hForest' := hForest.addGraph hMay
  have hGrows : Grows r (r.addGraph graph parent).2 :=
    grows_addGraph hMay.hasParent
  have hNew : .opened r.nextGraph ∉ deeds := by
    intro hMem
    exact (h.opened.mp hMem).ne_next rfl
  have hNext :
      (r.addGraph graph parent).2.graph r.nextGraph =
        { graph with parent := parent } :=
    graph_addGraph_next hMay.hasParent
  have hAround := h.defaults_around hForest hMay hStarts
  have hOld :
      ∀ {β : Type} (view : Graph → β),
        (∀ (graph : Graph) (children : List GraphId),
          view { graph with children := children } = view graph) →
        ∀ g,
          r.HasGraph g →
            view ((r.addGraph graph parent).2.graph g) =
              view (r.graph g) :=
    fun view hView g hg =>
      view_addGraph_of_hasGraph view hMay.hasParent hView hg
  have hLeaves : LeavesGraph deeds r.nextGraph :=
    h.unopened fun hNext => hNext.ne_next rfl
  constructor
  · intro g
    rw [hasGraph_addGraph, ← h.opened, List.mem_append,
      List.mem_singleton, Deed.opened.injEq]
  · intro g hg
    rw [hasGraph_addGraph, not_or] at hg
    exact (h.unopened hg.1).append ⟨rfl, fun _ => rfl⟩
  · intro g hg kind
    rcases (hasGraph_addGraph g).mp hg with hg | rfl
    · rw [hOld (fun graph => graph.defaults kind)
          (fun _ _ => by cases kind <;> rfl) g hg,
        hGrows.lineage_eq hForest hForest' hg,
        hForest.lineage_eq_cons hg,
        pairsInForce_append (h.opened.mpr hg),
        ← hForest.lineage_eq_cons hg, h.defaults hg]
      simp [Deed.pairsForDefaults]
    · rw [hForest'.lineage_eq_cons hg, pairsInForce,
        deedsBefore_of_not_mem hNew, List.flatMap_append,
        hLeaves.2, hNext]
      have hStart :
          ({ graph with parent := parent } : Graph).defaults kind =
            _ :=
        Eq.trans (by cases kind <;> rfl) (hAround kind)
      simpa [Deed.pairsForDefaults] using hStart
  · intro g hg
    rcases (hasGraph_addGraph g).mp hg with hg | rfl
    · rw [hOld Graph.attributes (fun _ _ => rfl) g hg,
        hGrows.lineage_eq hForest hForest' hg,
        deedsBefore_append (h.opened.mpr hg), h.attributes hg]
      simp [Deed.pairsForGraph]
    · rw [deedsBefore_of_not_mem hNew, List.flatMap_append,
        hLeaves.1, hNext]
      have hStart := hAround .graph
      simpa [Deed.pairsForGraph] using hStarts.1.trans hStart

------------------------------------------------------------
-- Nodes Through Steps
------------------------------------------------------------

/-
  The tables of nodes are written as the deeds say, and no node
  is made.
-/
structure WritesNodes
    (more : List Deed)
    (r s : Registry F) : Prop where
  nodeMade : ∀ n, .nodeMade n ∉ more
  hasNode : ∀ n, s.HasNode n ↔ r.HasNode n
  owner : ∀ n, (s.node n).owner = (r.node n).owner
  leaves :
    ∀ n,
      ¬ r.HasNode n → more.flatMap (Deed.pairsForNode n) = []
  attributes :
    ∀ n,
      (s.node n).attributes =
        (r.node n).attributes.setAll
          (more.flatMap (Deed.pairsForNode n))

theorem TellsNodes.extend
    (h : TellsNodes ⟨r, deeds⟩)
    (hForest : r.IsForest)
    (hForest' : s.IsForest)
    (hGrows : Grows r s)
    (hScoped : r.IsScoped)
    (hWrites : WritesNodes more r s) :
    TellsNodes ⟨s, deeds ++ more⟩ where
  nodeMade {n} := by
    rw [hWrites.hasNode, ← h.nodeMade, List.mem_append]
    simp [hWrites.nodeMade n]
  unmade {n} hn := by
    rw [hWrites.hasNode] at hn
    rw [List.flatMap_append, h.unmade hn, hWrites.leaves n hn]
    rfl
  attributes {n} hn := by
    rw [hWrites.hasNode] at hn
    rw [hWrites.owner, hGrows.lineage_eq hForest hForest'
        (hScoped.hasOwner hn),
      deedsBefore_append (h.nodeMade.mpr hn), List.flatMap_append,
      ← List.append_assoc, AttributeTable.ofList_append,
      ← h.attributes hn]
    exact hWrites.attributes n

/- A new node starts with the defaults that are in force. -/
theorem TellsNodes.make
    (h : TellsNodes ⟨r, deeds⟩)
    (hGraphs : TellsGraphs ⟨r, deeds⟩)
    (hForest : r.IsForest)
    (hScoped : r.IsScoped)
    {scope : GraphId}
    (hScope : r.HasGraph scope)
    (name : String) :
    TellsNodes
      ⟨r.declareNode scope name, deeds ++ [.nodeMade r.nextNode]⟩ := by
  have hForest' :=
    hForest.of_sameTree (sameTree_declareNode scope name)
  have hLineage :
      ∀ {g},
        r.HasGraph g →
          (r.declareNode scope name).lineage g = r.lineage g :=
    fun hg => (grows_declareNode hScope name).lineage_eq hForest
      hForest' hg
  have hNew : .nodeMade r.nextNode ∉ deeds := by
    intro hMem
    exact (h.nodeMade.mp hMem).ne_next rfl
  constructor
  · intro n
    rw [hasNode_declareNode, ← h.nodeMade, List.mem_append,
      List.mem_singleton, Deed.nodeMade.injEq]
  · intro n hn
    rw [hasNode_declareNode, not_or] at hn
    rw [List.flatMap_append, h.unmade hn.1]
    rfl
  · intro n hn
    rcases (hasNode_declareNode scope name n).mp hn with hn | rfl
    · rw [node_declareNode_of_hasNode hn,
        hLineage (hScoped.hasOwner hn),
        deedsBefore_append (h.nodeMade.mpr hn), h.attributes hn]
      simp [Deed.pairsForNode]
    · have hNone : ¬ r.HasNode r.nextNode := fun hn => hn.ne_next rfl
      have hDefaults :
          (r.graph scope).nodeDefaults = _ :=
        hGraphs.defaults hScope .node
      rw [node_declareNode, if_pos rfl, hLineage hScope,
        deedsBefore_of_not_mem hNew, List.flatMap_append,
        h.unmade hNone]
      simpa [Deed.pairsForNode] using hDefaults

------------------------------------------------------------
-- Edges Through Steps
------------------------------------------------------------

/-
  What holds when edges are made, if any are: the older edges
  stay as they are, unless their graphs are strict.
-/
structure KeepsEdges (r s : Registry F) : Prop where
  size_le : r.edges.size ≤ s.edges.size
  owner :
    ∀ {e}, r.HasEdge e → (s.edge e).owner = (r.edge e).owner
  attributes :
    ∀ {e},
      r.HasEdge e →
        (r.graph (r.edge e).owner).strict = false →
        (s.edge e).attributes = (r.edge e).attributes

theorem KeepsEdges.of_eq
    (hEdges : s.edges = r.edges) :
    KeepsEdges r s where
  size_le := Nat.le_of_eq (by rw [hEdges])
  owner _ := by rw [edge, edge, hEdges]
  attributes _ _ := by rw [edge, edge, hEdges]

theorem KeepsEdges.hasEdge
    (hKeeps : KeepsEdges r s)
    {e : EdgeId}
    (he : r.HasEdge e) :
    s.HasEdge e :=
  Nat.lt_of_lt_of_le he hKeeps.size_le

theorem KeepsEdges.trans
    {t : Registry F}
    (hGrows : Grows r s)
    (hLinked : r.IsLinked)
    (hKeeps : KeepsEdges r s)
    (hKeeps' : KeepsEdges s t) :
    KeepsEdges r t where
  size_le := Nat.le_trans hKeeps.size_le hKeeps'.size_le
  owner he :=
    (hKeeps'.owner (hKeeps.hasEdge he)).trans (hKeeps.owner he)
  attributes {e} he hPlain := by
    have hPlain' : (s.graph (s.edge e).owner).strict = false := by
      rw [hKeeps.owner he, hGrows.strict (hLinked.hasOwner he)]
      exact hPlain
    rw [hKeeps'.attributes (hKeeps.hasEdge he) hPlain',
      hKeeps.attributes he hPlain]

/- Connections that were made before tell of the same edges. -/
theorem TellsEdges.made_hasEdge
    (h : TellsEdges ⟨r, deeds⟩)
    {c : Connection}
    {e : EdgeId}
    (hMem : .connected c ∈ deeds)
    (hMade : c.Made e) :
    r.HasEdge e :=
  Nat.lt_of_lt_of_le hMade.2 (h.last_le hMem)

theorem TellsEdges.attributes_of_keeps
    (h : TellsEdges ⟨r, deeds⟩)
    (hForest : r.IsForest)
    (hForest' : s.IsForest)
    (hGrows : Grows r s)
    (hKeeps : KeepsEdges r s)
    {c : Connection}
    {e : EdgeId}
    (hMem : .connected c ∈ deeds)
    (hMade : c.Made e)
    (hPlain : (s.graph c.scope).strict = false) :
    (s.edge e).attributes =
      .ofList
        (pairsInForce .edge (s.lineage c.scope)
            ((deeds ++ more).take c.begun) ++
          c.pairs) := by
  have he := h.made_hasEdge hMem hMade
  have hScope := h.hasScope hMem
  rw [hGrows.strict hScope] at hPlain
  have hOwner := h.owner hMem hMade
  rw [hGrows.lineage_eq hForest hForest' hScope,
    List.take_append_of_le_length (h.begun_le hMem),
    ← h.attributes hMem hMade hPlain]
  apply hKeeps.attributes he
  rw [hOwner]
  exact hPlain

theorem TellsEdges.extend
    (h : TellsEdges ⟨r, deeds⟩)
    (hForest : r.IsForest)
    (hForest' : s.IsForest)
    (hGrows : Grows r s)
    (hEdges : s.edges = r.edges)
    (hNone : ∀ c, .connected c ∉ more) :
    TellsEdges ⟨s, deeds ++ more⟩ := by
  have hKeeps := KeepsEdges.of_eq hEdges
  have hOld :
      ∀ {c}, .connected c ∈ deeds ++ more → .connected c ∈ deeds := by
    intro c hMem
    rcases List.mem_append.mp hMem with hMem | hMem
    · exact hMem
    · exact absurd hMem (hNone c)
  constructor
  · intro c hMem
    have hLe : c.begun ≤ deeds.length := h.begun_le (hOld hMem)
    simp only [List.length_append]
    omega
  · intro c hMem
    rw [hEdges]
    exact h.last_le (hOld hMem)
  · intro e he
    unfold HasEdge at he
    rw [hEdges] at he
    rcases h.exists_made he with ⟨c, hMem, hMade⟩
    exact ⟨c, List.mem_append_left _ hMem, hMade⟩
  · intro c hMem
    exact hGrows.graph (h.hasScope (hOld hMem))
  · intro c e hMem hMade
    rw [hKeeps.owner (h.made_hasEdge (hOld hMem) hMade)]
    exact h.owner (hOld hMem) hMade
  · intro c e hMem hMade hPlain
    exact h.attributes_of_keeps hForest hForest' hGrows hKeeps
      (hOld hMem) hMade hPlain

theorem TellsEdges.connect
    (h : TellsEdges ⟨r, deeds⟩)
    (hForest : r.IsForest)
    (hForest' : s.IsForest)
    (hGrows : Grows r s)
    (hKeeps : KeepsEdges r s)
    {c : Connection}
    (hScope : r.HasGraph c.scope)
    (hBegun : c.begun ≤ deeds.length)
    (hFirst : c.first = r.edges.size)
    (hLast : c.last = s.edges.size)
    (hOwner : ∀ {e}, c.Made e → (s.edge e).owner = c.scope)
    (hAttributes :
      ∀ {e},
        c.Made e →
          (s.graph c.scope).strict = false →
          (s.edge e).attributes =
            .ofList
              (pairsInForce .edge (r.lineage c.scope)
                  (deeds.take c.begun) ++
                c.pairs)) :
    TellsEdges ⟨s, deeds ++ [.connected c]⟩ := by
  have hCases :
      ∀ {d},
        .connected d ∈ deeds ++ [.connected c] →
          .connected d ∈ deeds ∨ d = c := by
    intro d hMem
    rcases List.mem_append.mp hMem with hMem | hMem
    · exact .inl hMem
    · rw [List.mem_singleton, Deed.connected.injEq] at hMem
      exact .inr hMem
  constructor
  · intro d hMem
    simp only [List.length_append]
    rcases hCases hMem with hMem | rfl
    · have hLe : d.begun ≤ deeds.length := h.begun_le hMem
      omega
    · omega
  · intro d hMem
    rcases hCases hMem with hMem | rfl
    · exact Nat.le_trans (h.last_le hMem) hKeeps.size_le
    · exact Nat.le_of_eq hLast
  · intro e he
    by_cases hOld : r.HasEdge e
    · rcases h.exists_made hOld with ⟨d, hMem, hMade⟩
      exact ⟨d, List.mem_append_left _ hMem, hMade⟩
    · refine ⟨c, List.mem_append_right _ List.mem_cons_self, ?_, ?_⟩
      · rw [hFirst]
        exact Nat.le_of_not_lt hOld
      · rw [hLast]
        exact he
  · intro d hMem
    rcases hCases hMem with hMem | rfl
    · exact hGrows.graph (h.hasScope hMem)
    · exact hGrows.graph hScope
  · intro d e hMem hMade
    rcases hCases hMem with hMem | rfl
    · rw [hKeeps.owner (h.made_hasEdge hMem hMade)]
      exact h.owner hMem hMade
    · exact hOwner hMade
  · intro d e hMem hMade hPlain
    rcases hCases hMem with hMem | rfl
    · exact h.attributes_of_keeps hForest hForest' hGrows hKeeps
        hMem hMade hPlain
    · simp only
      rw [hGrows.lineage_eq hForest hForest' hScope,
        List.take_append_of_le_length hBegun]
      exact hAttributes hMade hPlain

end Moment

end DotLang
