import DotLang.Proofs.Registry.Lookups
import DotLang.Registry.Csv
import DotLang.Registry.Trace

/-
  This file proves that the texts of a graph, which are its
  source, its table of edges and its trace, look up nothing that
  is not there.

  The writers are told once more with lookups that may fail, and
  without a bound on how deep graphs are nested.

  Key definitions include:
    * `Registry.toDot?`
    * `Registry.toCsv?`
    * `Registry.trace?`

  Key theorems include:
    * `Registry.IsConsistent.toDot?_eq`
    * `Registry.IsConsistent.toCsv?_eq`
    * `Registry.IsConsistent.trace?_eq`
-/

------------------------------------------------------------
-- Lines of Nodes and Edges
------------------------------------------------------------

namespace DotLang

namespace Registry

variable {F : Factory} {r : Registry F} {g : GraphId}

/- The line of a node in a graph. -/
def nodeLine?
    (r : Registry F)
    (g : GraphId)
    (n : NodeId) : Option String := do
  let node ← r.node? n
  let attributes :=
    if node.owner = g then node.attributes.suffix else ""
  return quoteIdentifier node.name ++ attributes ++ ";"

/- The line of an edge in a graph. -/
def edgeLine?
    (r : Registry F)
    (directed : Bool)
    (e : EdgeId) : Option String := do
  let edge ← r.edge? e
  let tail ← r.node? edge.tail
  let head ← r.node? edge.head
  return quoteIdentifier tail.name ++ " " ++
    (Arrow.ofDirected directed).spelling ++ " " ++
    quoteIdentifier head.name ++ edge.attributes.suffix ++ ";"

/- The line of a node in a trace. -/
def nodeSummary?
    (r : Registry F)
    (n : NodeId) : Option String := do
  let node ← r.node? n
  return " Node " ++ quoteIdentifier node.name ++ " " ++
    node.attributes.written

/- The line of an edge in a trace. -/
def edgeSummary?
    (r : Registry F)
    (e : EdgeId) : Option String := do
  let edge ← r.edge? e
  let tail ← r.node? edge.tail
  let head ← r.node? edge.head
  return " Edge " ++ quoteIdentifier tail.name ++ " " ++
    edge.arrow.spelling ++ " " ++ quoteIdentifier head.name ++
    " " ++ edge.attributes.written

/- The fields of an edge: its ends, then a text a column. -/
def edgeFields?
    (r : Registry F)
    (columns : List String)
    (e : EdgeId) : Option (List String) := do
  let edge ← r.edge? e
  let tail ← r.node? edge.tail
  let head ← r.node? edge.head
  return tail.name :: head.name ::
    columns.map fun name => (edge.attributes.text? name).getD ""

theorem nodeLine?_eq
    (g : GraphId)
    {n : NodeId}
    (hn : r.HasNode n) :
    r.nodeLine? g n = some (r.nodeLine g n) := by
  rw [nodeLine?, bind_of_eq_some (node?_eq hn)]
  rfl

theorem nodeSummary?_eq
    {n : NodeId}
    (hn : r.HasNode n) :
    r.nodeSummary? n = some (r.nodeSummary n) := by
  rw [nodeSummary?, bind_of_eq_some (node?_eq hn)]
  rfl

/- What is made of an edge and of its ends. -/
theorem KeepsHandles.bind_edge?
    {α : Type}
    (h : r.KeepsHandles)
    {e : EdgeId}
    (he : r.HasEdge e)
    (make : Edge → Node → Node → Option α) :
    (do
      let edge ← r.edge? e
      let tail ← r.node? edge.tail
      let head ← r.node? edge.head
      make edge tail head) =
      make (r.edge e) (r.node (r.edge e).tail)
        (r.node (r.edge e).head) := by
  rw [bind_of_eq_some (edge?_eq he),
    bind_of_eq_some (node?_eq (h.tail he)),
    bind_of_eq_some (node?_eq (h.head he))]

theorem KeepsHandles.edgeLine?_eq
    (h : r.KeepsHandles)
    (directed : Bool)
    {e : EdgeId}
    (he : r.HasEdge e) :
    r.edgeLine? directed e = some (r.edgeLine directed e) :=
  h.bind_edge? he _

theorem KeepsHandles.edgeSummary?_eq
    (h : r.KeepsHandles)
    {e : EdgeId}
    (he : r.HasEdge e) :
    r.edgeSummary? e = some (r.edgeSummary e) :=
  h.bind_edge? he _

theorem KeepsHandles.edgeFields?_eq
    (h : r.KeepsHandles)
    (columns : List String)
    {e : EdgeId}
    (he : r.HasEdge e) :
    r.edgeFields? columns e = some (r.edgeFields columns e) :=
  h.bind_edge? he _

------------------------------------------------------------
-- Members
------------------------------------------------------------

/-
  The members of a graph that it or a graph around it owns, and
  those that only graphs inside it own.
-/
def splitMembers?
    (r : Registry F)
    (g : GraphId) : Option (List NodeId × List NodeId) := do
  let graph ← r.graph? g
  let marked ← graph.members.mapM fun n => do
    let node ← r.node? n
    let visible ← r.isInScope? node.owner g
    return (n, visible)
  let (visible, nested) := marked.partition Prod.snd
  return (visible.map Prod.fst, nested.map Prod.fst)

theorem IsConsistent.splitMembers?_eq
    (h : r.IsConsistent)
    (hg : r.HasGraph g) :
    r.splitMembers? g =
      some
        ((r.graph g).members.filter
            (fun n => (r.lineage g).contains (r.node n).owner),
          r.nestedNodes g) := by
  let mark (n : NodeId) : NodeId × Bool :=
    (n, (r.lineage g).contains (r.node n).owner)
  have hMarks :
      ∀ n ∈ (r.graph g).members,
        (do
          let node ← r.node? n
          let visible ← r.isInScope? node.owner g
          return (n, visible)) =
          some (mark n) := by
    intro n hMem
    rw [bind_of_eq_some (node?_eq (h.keepsHandles.members hMem)),
      bind_of_eq_some (h.isForest.isInScope?_eq _ hg)]
    rfl
  have hId : Prod.fst ∘ mark = id := rfl
  rw [splitMembers?, bind_of_eq_some (graph?_eq hg),
    bind_of_eq_some (mapM_eq_some_map hMarks)]
  simp only [List.partition_eq_filter_filter, List.filter_map,
    List.map_map, hId, List.map_id]
  rfl

------------------------------------------------------------
-- Lines of a Graph
------------------------------------------------------------

/- The lines of a graph, with those inside it. -/
def dotLines?
    (r : Registry F)
    (level : Nat)
    (g : GraphId) : Option (List String) := do
  let graph ← r.graph? g
  let outer := spaces (2 * level)
  let inner := spaces (2 * (level + 1))
  let attributes := graph.attributes.entries.map fun a =>
    a.written ++ ";"
  let (visible, nested) ← r.splitMembers? g
  let owned := graph.nodes.filter fun n => !graph.isMember n
  let before ← (visible ++ owned).mapM (r.nodeLine? g)
  let children ← graph.children.mapM (r |>.dotLines? (level + 1))
  let behind ← nested.mapM (r.nodeLine? g)
  let edges ← graph.edges.mapM (r.edgeLine? graph.directed)
  return [outer ++ graph.header] ++
    (attributes ++ before).map (inner ++ ·) ++
    children.flatten ++
    (behind ++ edges).map (inner ++ ·) ++
    [outer ++ "\x7d"]
partial_fixpoint

/- The text of a graph. -/
def toDot?
    (r : Registry F)
    (g : GraphId) : Option String :=
  (r.dotLines? 0 g).map unlines

/- The lines of a graph in a trace, with those inside it. -/
def traceLines?
    (r : Registry F)
    (level : Nat)
    (g : GraphId) : Option (List String) := do
  let graph ← r.graph? g
  let attributes :=
    if graph.attributes.isEmpty then
      []
    else
      [" Attributes " ++ graph.attributes.written]
  let nodes ← graph.nodes.mapM r.nodeSummary?
  let edges ← graph.edges.mapM r.edgeSummary?
  let children ← graph.children.mapM (r |>.traceLines? (level + 1))
  return ([graph.summary] ++ attributes ++ nodes ++ edges).map
      (spaces level ++ ·) ++
    children.flatten
partial_fixpoint

/- The trace of a graph. -/
def trace?
    (r : Registry F)
    (g : GraphId) : Option String :=
  (r.traceLines? 0 g).map unlines

/- A graph is nested deeper than the graph around it. -/
theorem IsForest.depth_child
    (hForest : r.IsForest)
    (hg : r.HasGraph g)
    {depth : Nat}
    (hDepth : r.graphs.size ≤ g.index + (depth + 1))
    {c : GraphId}
    (hc : c ∈ (r.graph g).children) :
    r.HasGraph c ∧ r.graphs.size ≤ c.index + depth := by
  have hParent := (hForest.mem_children hg).mp hc
  have hLt := hForest.parent_lt hParent
  exact ⟨hasGraph_of_parent hParent, by omega⟩

theorem IsConsistent.dotLines?_eq
    (h : r.IsConsistent)
    (hg : r.HasGraph g)
    {depth : Nat}
    (hDepth : r.graphs.size ≤ g.index + depth)
    (level : Nat) :
    r.dotLines? level g = some (r.dotLines depth level g) := by
  have hKeeps := h.keepsHandles
  induction depth generalizing g level with
  | zero => exact absurd hg (Nat.not_lt.mpr hDepth)
  | succ depth ih =>
      have hBefore :
          ∀ n ∈ r.visibleNodes g,
            r.nodeLine? g n = some (r.nodeLine g n) := by
        intro n hMem
        apply nodeLine?_eq
        rcases List.mem_append.mp hMem with hMem | hMem
        · exact hKeeps.members (List.mem_filter.mp hMem).1
        · exact hKeeps.nodes (List.mem_filter.mp hMem).1
      have hBehind :
          ∀ n ∈ r.nestedNodes g,
            r.nodeLine? g n = some (r.nodeLine g n) := by
        intro n hMem
        exact nodeLine?_eq g
          (hKeeps.members (List.mem_filter.mp hMem).1)
      have hChildren :
          ∀ c ∈ (r.graph g).children,
            r.dotLines? (level + 1) c =
              some (r.dotLines depth (level + 1) c) := by
        intro c hc
        rcases h.isForest.depth_child hg hDepth hc with
          ⟨hGraph, hBound⟩
        exact ih hGraph hBound (level + 1)
      have hEdges :
          ∀ e ∈ (r.graph g).edges,
            r.edgeLine? (r.graph g).directed e =
              some (r.edgeLine (r.graph g).directed e) :=
        fun e he => hKeeps.edgeLine?_eq _ (hKeeps.edges he)
      rw [dotLines?, bind_of_eq_some (graph?_eq hg),
        bind_of_eq_some (h.splitMembers?_eq hg)]
      refine (bind_of_eq_some (mapM_eq_some_map hBefore) _).trans ?_
      rw [bind_of_eq_some (mapM_eq_some_map hChildren),
        bind_of_eq_some (mapM_eq_some_map hBehind),
        bind_of_eq_some (mapM_eq_some_map hEdges), dotLines,
        List.flatMap_def]
      rfl

theorem IsConsistent.traceLines?_eq
    (h : r.IsConsistent)
    (hg : r.HasGraph g)
    {depth : Nat}
    (hDepth : r.graphs.size ≤ g.index + depth)
    (level : Nat) :
    r.traceLines? level g = some (r.traceLines depth level g) := by
  have hKeeps := h.keepsHandles
  induction depth generalizing g level with
  | zero => exact absurd hg (Nat.not_lt.mpr hDepth)
  | succ depth ih =>
      have hNodes :
          ∀ n ∈ (r.graph g).nodes,
            r.nodeSummary? n = some (r.nodeSummary n) :=
        fun n hn => nodeSummary?_eq (hKeeps.nodes hn)
      have hEdges :
          ∀ e ∈ (r.graph g).edges,
            r.edgeSummary? e = some (r.edgeSummary e) :=
        fun e he => hKeeps.edgeSummary?_eq (hKeeps.edges he)
      have hChildren :
          ∀ c ∈ (r.graph g).children,
            r.traceLines? (level + 1) c =
              some (r.traceLines depth (level + 1) c) := by
        intro c hc
        rcases h.isForest.depth_child hg hDepth hc with
          ⟨hGraph, hBound⟩
        exact ih hGraph hBound (level + 1)
      rw [traceLines?, bind_of_eq_some (graph?_eq hg),
        bind_of_eq_some (mapM_eq_some_map hNodes),
        bind_of_eq_some (mapM_eq_some_map hEdges),
        bind_of_eq_some (mapM_eq_some_map hChildren), traceLines,
        List.flatMap_def]
      rfl

theorem IsConsistent.toDot?_eq
    (h : r.IsConsistent)
    (hg : r.HasGraph g) :
    r.toDot? g = some (r.toDot g) := by
  rw [toDot?, h.dotLines?_eq hg (Nat.le_add_left _ _)]
  rfl

theorem IsConsistent.trace?_eq
    (h : r.IsConsistent)
    (hg : r.HasGraph g) :
    r.trace? g = some (r.trace g) := by
  rw [trace?, h.traceLines?_eq hg (Nat.le_add_left _ _)]
  rfl

------------------------------------------------------------
-- Tables of Edges
------------------------------------------------------------

/- The records of the edges of a graph, below a header. -/
def csvRecords?
    (r : Registry F)
    (g : GraphId) : Option (List (List String)) := do
  let edges ← r.allEdges? g
  let names ← edges.mapM fun e =>
    (r.edge? e).map fun edge => edge.attributes.names
  let columns := names.flatten.eraseDups
  let rows ← edges.mapM (r.edgeFields? columns)
  return ("from" :: "to" :: columns) :: rows

/- The table of the edges of a graph. -/
def toCsv?
    (r : Registry F)
    (g : GraphId) : Option String :=
  (r.csvRecords? g).map fun records =>
    unlines (records.map csvRecord)

theorem IsConsistent.hasEdge_of_mem_allEdges
    (h : r.IsConsistent)
    (hg : r.HasGraph g)
    (e : EdgeId)
    (he : e ∈ r.allEdges g) :
    r.HasEdge e :=
  (((h.visitsExtent hg).mem_allEdges_iff e).mp he).1

theorem IsConsistent.csvRecords?_eq
    (h : r.IsConsistent)
    (hg : r.HasGraph g) :
    r.csvRecords? g = some (r.csvRecords g) := by
  have hAll := h.hasEdge_of_mem_allEdges hg
  have hNames :
      ∀ e ∈ r.allEdges g,
        (r.edge? e).map (fun edge => edge.attributes.names) =
          some (r.edge e).attributes.names := by
    intro e he
    rw [edge?_eq (hAll e he)]
    rfl
  have hRows :
      ∀ e ∈ r.allEdges g,
        r.edgeFields? (r.attributeColumns (r.allEdges g)) e =
          some
            (r.edgeFields (r.attributeColumns (r.allEdges g)) e) :=
    fun e he => h.keepsHandles.edgeFields?_eq _ (hAll e he)
  rw [csvRecords?, bind_of_eq_some (h.isForest.allEdges?_eq hg),
    bind_of_eq_some (mapM_eq_some_map hNames), ← List.flatMap_def]
  exact bind_of_eq_some (mapM_eq_some_map hRows) _

theorem IsConsistent.toCsv?_eq
    (h : r.IsConsistent)
    (hg : r.HasGraph g) :
    r.toCsv? g = some (r.toCsv g) := by
  rw [toCsv?, h.csvRecords?_eq hg]
  rfl

end Registry

end DotLang
