import DotLang.Proofs.Partition.Lookups
import DotLang.Proofs.Registry.LookupsInTexts
import DotLang.Proofs.SpanningForest.Correctness

/-
  This file proves that making the minimum spanning forest of a
  graph ends, and looks up nothing that is not there.

  It is told once more with lookups that may fail: of edges and
  their ends, of the places of nodes, of sets in the partition,
  and of the copies of nodes.

  Key definitions include:
    * `selectEdges?`
    * `Registry.spanningForest?`
    * `Registry.ofForest?`
    * `Registry.minimumSpanningTree?`

  Key theorems include:
    * `selectEdges?_eq`
    * `Registry.IsConsistent.spanningForest?_eq`
    * `Registry.IsConsistent.minimumSpanningTree?_eq`
-/

------------------------------------------------------------
-- Selection
------------------------------------------------------------

namespace DotLang

/-
  The edges that join two sets of a partition when they are
  taken one after the other, and the partition in the end.
-/
def selectEdges?
    (ends? : EdgeId → Option (Nat × Nat)) :
    Nat → Partition → List WeighedEdge →
      Option (List EdgeId × Partition)
| _, p, [] => some ([], p)
| 0, p, _ => some ([], p)
| missing + 1, p, e :: rest => do
    let (tail, head) ← ends? e.edge
    let (joined, p) ← p.union? tail head
    if joined then
      let (selected, p) ← selectEdges? ends? missing p rest
      return (e.edge :: selected, p)
    else
      selectEdges? ends? (missing + 1) p rest

theorem selectEdges?_eq
    {ends? : EdgeId → Option (Nat × Nat)}
    {ends : EdgeId → Nat × Nat}
    {p : Partition}
    (hp : p.IsRanked)
    {edges : List WeighedEdge}
    (hEnds :
      ∀ x ∈ edges,
        ends? x.edge = some (ends x.edge) ∧
          (ends x.edge).1 < p.size ∧
          (ends x.edge).2 < p.size)
    (missing : Nat) :
    selectEdges? ends? missing p edges =
      some (selectEdges ends missing p edges) := by
  induction edges generalizing missing p with
  | nil => rw [selectEdges?, selectEdges]
  | cons e edges ih =>
      rcases missing with _ | missing
      · rfl
      rcases List.forall_mem_cons.mp hEnds with
        ⟨⟨hPlaces, hTail, hHead⟩, hRest⟩
      have hUnion := hp.union?_eq hTail hHead
      rcases Partition.union_isRanked hp hTail hHead with
        ⟨hNext, hSize⟩
      have hRest' :
          ∀ missing,
            selectEdges? ends? missing
                (p.union (ends e.edge).1 (ends e.edge).2).2 edges =
              some
                (selectEdges ends missing
                  (p.union (ends e.edge).1 (ends e.edge).2).2
                  edges) :=
        ih hNext (hSize.symm ▸ hRest)
      rw [selectEdges?, bind_of_eq_some hPlaces, selectEdges]
      refine (bind_of_eq_some hUnion _).trans ?_
      by_cases hJoined :
          (p.union (ends e.edge).1 (ends e.edge).2).1 = true
      · refine (if_pos hJoined).trans ?_
        refine (bind_of_eq_some (hRest' missing) _).trans ?_
        dsimp only
        rw [if_pos hJoined]
        rfl
      · refine (if_neg hJoined).trans ?_
        dsimp only
        rw [if_neg hJoined]
        exact hRest' (missing + 1)

namespace Registry

variable {F : Factory} {r : Registry F} {g : GraphId}

/- The places of the ends of an edge in the index of nodes. -/
def places?
    (r : Registry F)
    (placed : PlacedNodes)
    (e : EdgeId) : Option (Nat × Nat) := do
  let edge ← r.edge? e
  let tail ← placed.places[edge.tail]?
  let head ← placed.places[edge.head]?
  return (tail, head)

/- The edges of a graph and inside it, from the lightest on. -/
def weighedEdges?
    (r : Registry F)
    (g : GraphId) : Option (List WeighedEdge) := do
  let edges ← r.allEdges? g
  let weighed ← edges.mapM fun e =>
    (r.edge? e).map fun edge =>
      WeighedEdge.mk edge.attributes.weight e
  return weighed.mergeSort fun a b => a.weight.rank ≤ b.weight.rank

/-
  The nodes of a graph and inside it, and then the ends of its
  edges, as they are met.
-/
def spannedNodes?
    (r : Registry F)
    (g : GraphId) : Option PlacedNodes := do
  let nodes ← r.allNodes? g
  let edges ← r.allEdges? g
  let ends ← edges.mapM fun e =>
    (r.edge? e).map fun edge => [edge.tail, edge.head]
  return (nodes ++ ends.flatten).foldl PlacedNodes.meet {}

/- The minimum spanning forest of a graph. -/
def spanningForest?
    (r : Registry F)
    (g : GraphId) : Option SpanningForest := do
  let placed ← r.spannedNodes? g
  let edges ← r.weighedEdges? g
  let (selected, p) ←
    selectEdges? (r.places? placed) (placed.nodes.length - 1)
      (.singletons placed.nodes.length) edges
  return { placed with
    edges := selected.mergeSort fun a b => a.index ≤ b.index
    trees := p.count }

/- What looking for a spanning forest says. -/
def spanningForestJournal?
    (r : Registry F)
    (g : GraphId)
    (forest : SpanningForest) : Option (List Entry) := do
  let edges ← r.allEdges? g
  let warnings ← edges.mapM fun e =>
    (r.edge? e).map fun edge => edge.attributes.weightWarnings
  let graph ← r.graph? g
  return warnings.flatten ++
    [{ level := .info
       origin := .forest
       message :=
        "Spanning tree of \"" ++ graph.name ++ "\": " ++
          toString forest.nodes.length ++ " nodes, " ++
          toString forest.edges.length ++ " edges, " ++
          toString forest.trees ++ " components." }]

/- Something is made of each edge of a graph. -/
theorem IsConsistent.mapM_edge?_eq
    {α : Type}
    (h : r.IsConsistent)
    (hg : r.HasGraph g)
    (make : Edge → EdgeId → α) :
    ((r.allEdges g).mapM fun e =>
        (r.edge? e).map fun edge => make edge e) =
      some ((r.allEdges g).map fun e => make (r.edge e) e) := by
  apply mapM_eq_some_map
  intro e he
  rw [edge?_eq (h.hasEdge_of_mem_allEdges hg e he)]
  rfl

theorem IsConsistent.weighedEdges?_eq
    (h : r.IsConsistent)
    (hg : r.HasGraph g) :
    r.weighedEdges? g = some (r.weighedEdges g) := by
  rw [weighedEdges?, bind_of_eq_some (h.isForest.allEdges?_eq hg)]
  exact bind_of_eq_some (h.mapM_edge?_eq hg _) _

theorem IsConsistent.spannedNodes?_eq
    (h : r.IsConsistent)
    (hg : r.HasGraph g) :
    r.spannedNodes? g = some (r.spannedNodes g) := by
  rw [spannedNodes?, bind_of_eq_some (h.isForest.allNodes?_eq hg),
    bind_of_eq_some (h.isForest.allEdges?_eq hg),
    bind_of_eq_some
      (h.mapM_edge?_eq hg fun edge _ => [edge.tail, edge.head]),
    ← List.flatMap_def]
  rfl

/- An edge that ends in nodes that were met has their places. -/
theorem places?_eq
    {placed : PlacedNodes}
    (hPlaced : placed.IsPlaced)
    {e : EdgeId}
    (he : r.HasEdge e)
    (hEnds : EndsIn r.ends placed.nodes e) :
    r.places? placed e = some (placesOf r.ends placed e) := by
  have hTail := hPlaced.getElem?_places_of_mem hEnds.1
  have hHead := hPlaced.getElem?_places_of_mem hEnds.2
  rw [places?, bind_of_eq_some (edge?_eq he)]
  refine (bind_of_eq_some hTail _).trans ?_
  exact bind_of_eq_some hHead _

theorem IsConsistent.spanningForest?_eq
    (h : r.IsConsistent)
    (hg : r.HasGraph g) :
    r.spanningForest? g = some (r.spanningForest g) := by
  let placed := r.spannedNodes g
  have hPlaced : placed.IsPlaced := r.isPlaced_spannedNodes g
  have hSize :
      (Partition.singletons placed.nodes.length).size =
        placed.nodes.length := by
    simp [Partition.singletons, Partition.size]
  have hEnds :
      ∀ x ∈ r.weighedEdges g,
        r.places? placed x.edge =
            some (placesOf r.ends placed x.edge) ∧
          (placesOf r.ends placed x.edge).1 <
            (Partition.singletons placed.nodes.length).size ∧
          (placesOf r.ends placed x.edge).2 <
            (Partition.singletons placed.nodes.length).size := by
    intro x hx
    have hIn := endsIn_of_mem_weighedEdges x hx
    have hMem :=
      (r.weighedEdges_perm g).mem_iff.mp (List.mem_map_of_mem hx)
    have he := h.hasEdge_of_mem_allEdges hg x.edge hMem
    rw [hSize]
    exact ⟨places?_eq hPlaced he hIn, hPlaced.placeOf_lt hIn.1,
      hPlaced.placeOf_lt hIn.2⟩
  have hSelect :=
    selectEdges?_eq (Partition.isRanked_singletons _) hEnds
      (placed.nodes.length - 1)
  rw [spanningForest?, bind_of_eq_some (h.spannedNodes?_eq hg),
    bind_of_eq_some (h.weighedEdges?_eq hg)]
  exact bind_of_eq_some hSelect _

theorem IsConsistent.spanningForestJournal?_eq
    (h : r.IsConsistent)
    (hg : r.HasGraph g) :
    r.spanningForestJournal? g (r.spanningForest g) =
      some (r.spanningForestJournal g) := by
  rw [spanningForestJournal?,
    bind_of_eq_some (h.isForest.allEdges?_eq hg),
    bind_of_eq_some
      (h.mapM_edge?_eq hg fun edge _ =>
        edge.attributes.weightWarnings),
    bind_of_eq_some (graph?_eq hg), ← List.flatMap_def]
  rfl

------------------------------------------------------------
-- Changes of What Is There
------------------------------------------------------------

/- Change a graph, if it is there. -/
def modifyGraph?
    (r : Registry F)
    (g : GraphId)
    (change : Graph → Graph) : Option (Registry F) :=
  if r.HasGraph g then some (r.modifyGraph g change) else none

/- Add a node to a graph, if that is there. -/
def addNode?
    (r : Registry F)
    (g : GraphId)
    (name : String)
    (attributes : AttributeTable) : Option (NodeId × Registry F) :=
  if r.HasGraph g then
    some (r.addNode g name attributes)
  else
    none

/- Mention a node in a graph, if that is there. -/
def addMember?
    (r : Registry F)
    (g : GraphId)
    (n : NodeId) : Option (Registry F) :=
  if r.HasGraph g then some (r.addMember g n) else none

/- Add an edge to a graph, if that and the ends are there. -/
def addEdge?
    (r : Registry F)
    (g : GraphId)
    (tail head : NodeId)
    (attributes : AttributeTable) : Option (EdgeId × Registry F) :=
  if r.HasGraph g ∧ r.HasNode tail ∧ r.HasNode head then
    some (r.addEdge g tail head attributes)
  else
    none

------------------------------------------------------------
-- Forests as Registries
------------------------------------------------------------

/-
  Add a copy of a node of another registry, as a member, and
  put it behind the copies that were made before.
-/
def copyNode?
    (source : Registry F)
    (root : GraphId)
    (made : List NodeId × Registry .plain)
    (n : NodeId) : Option (List NodeId × Registry .plain) := do
  let node ← source.node? n
  let (copy, r) ← made.2.addNode? root node.name node.attributes
  let r ← r.addMember? root copy
  return (made.1 ++ [copy], r)

/-
  Add a copy of an edge of another registry, between the copies
  of its ends, which are in the places of the ends.
-/
def copyEdge?
    (source : Registry F)
    (root : GraphId)
    (placed : PlacedNodes)
    (copies : List NodeId)
    (r : Registry .plain)
    (e : EdgeId) : Option (Registry .plain) := do
  let edge ← source.edge? e
  let (tailPlace, headPlace) ← source.places? placed e
  let tail ← copies[tailPlace]?
  let head ← copies[headPlace]?
  let made ← r.addEdge? root tail head edge.attributes
  return made.2

/- A registry with copies of the nodes and edges of a forest. -/
def ofForest?
    (source : Registry F)
    (g : GraphId)
    (forest : SpanningForest) : Option (Registry .plain) := do
  let graph ← source.graph? g
  let (root, r) :=
    (Registry.plain {}).addGraph
      (.new graph.name graph.directed false) none
  let r ← r.modifyGraph? root
    (Graph.setAttributes graph.attributes.entries)
  let (copies, r) ←
    forest.nodes.foldlM (source.copyNode? root) ([], r)
  forest.edges.foldlM
    (source.copyEdge? root forest.toPlacedNodes copies) r

/- The minimum spanning forest as a registry, and what is said. -/
def minimumSpanningTree?
    (r : Registry F)
    (g : GraphId) : Option (Registry .plain × List Entry) := do
  let forest ← r.spanningForest? g
  let journal ← r.spanningForestJournal? g forest
  let tree ← r.ofForest? g forest
  return (tree, journal)

section Copying

variable {root : GraphId} {made : List NodeId × Registry .plain}

/-
  Copies of some nodes, one for each of them, that are in a
  registry with a graph to put them in.
-/
structure HoldsCopies
    (root : GraphId)
    (nodes : List NodeId)
    (made : List NodeId × Registry .plain) : Prop where
  hasRoot : made.2.HasGraph root
  length : made.1.length = nodes.length
  hasNode : ∀ n ∈ made.1, made.2.HasNode n

theorem copyNode?_eq
    {nodes : List NodeId}
    (h : HoldsCopies root nodes made)
    {n : NodeId}
    (hn : r.HasNode n) :
    r.copyNode? root made n = some (r.copyNode root made n) ∧
      HoldsCopies root (nodes ++ [n]) (r.copyNode root made n) := by
  rcases made with ⟨copies, t⟩
  let added : Registry .plain :=
    (t.addNode root (r.node n).name (r.node n).attributes).2
  have hAdded : added.HasGraph root :=
    (sameTree_addNode root _ _).hasGraph root |>.mpr h.hasRoot
  have hMade :
      t.addNode? root (r.node n).name (r.node n).attributes =
        some (t.nextNode, added) :=
    if_pos h.hasRoot
  have hMember :
      added.addMember? root t.nextNode =
        some (added.addMember root t.nextNode) :=
    if_pos hAdded
  refine ⟨?_, ?_, ?_, ?_⟩
  · rw [copyNode?, bind_of_eq_some (node?_eq hn)]
    refine (bind_of_eq_some hMade _).trans ?_
    exact bind_of_eq_some hMember _
  · exact (sameTree_addMember root t.nextNode).hasGraph root
      |>.mpr hAdded
  · have hLength := h.length
    simp only [copyNode, List.length_append, hLength]
    rfl
  · intro copy hCopy
    refine (hasNode_addNode root _ _ copy).mpr ?_
    rcases List.mem_append.mp hCopy with hOld | hNew
    · exact .inl (h.hasNode copy hOld)
    · exact .inr (List.mem_singleton.mp hNew)

theorem foldlM_copyNode?_eq
    {copied nodes : List NodeId}
    (h : HoldsCopies root copied made)
    (hNodes : ∀ n ∈ nodes, r.HasNode n) :
    nodes.foldlM (r.copyNode? root) made =
        some (nodes.foldl (r.copyNode root) made) ∧
      HoldsCopies root (copied ++ nodes)
        (nodes.foldl (r.copyNode root) made) := by
  induction nodes generalizing copied made with
  | nil => exact ⟨rfl, by simpa using h⟩
  | cons n nodes ih =>
      rcases List.forall_mem_cons.mp hNodes with ⟨hn, hRest⟩
      rcases copyNode?_eq h hn with ⟨hCopy, hNext⟩
      have hAll := ih hNext hRest
      rw [List.append_assoc, List.singleton_append] at hAll
      rwa [List.foldlM_cons, bind_of_eq_some hCopy, List.foldl_cons]

variable {placed : PlacedNodes} {copies : List NodeId}
variable {t : Registry .plain}

/- The copy of a node is found in the place of the node. -/
theorem HoldsCopies.getElem?_placeOf
    (h : HoldsCopies root placed.nodes (copies, t))
    (hPlaced : placed.IsPlaced)
    {n : NodeId}
    (hn : n ∈ placed.nodes) :
    copies[placed.placeOf n]? =
        some (copies.getD (placed.placeOf n) default) ∧
      t.HasNode (copies.getD (placed.placeOf n) default) := by
  have hLt : placed.placeOf n < copies.length := by
    rw [h.length]
    exact hPlaced.placeOf_lt hn
  have hAt := List.getElem?_eq_getElem hLt
  rw [List.getD_eq_getElem?_getD, hAt]
  exact ⟨rfl, h.hasNode _ (List.getElem_mem hLt)⟩

/- An edge whose ends have been copied. -/
theorem copyEdge?_eq
    (h : HoldsCopies root placed.nodes (copies, t))
    (hPlaced : placed.IsPlaced)
    {e : EdgeId}
    (he : r.HasEdge e)
    (hEnds : EndsIn r.ends placed.nodes e) :
    r.copyEdge? root placed copies t e =
        some (r.copyEdge root placed copies t e) ∧
      HoldsCopies root placed.nodes
        (copies, r.copyEdge root placed copies t e) := by
  rcases h.getElem?_placeOf hPlaced hEnds.1 with ⟨hTail, hHasTail⟩
  rcases h.getElem?_placeOf hPlaced hEnds.2 with ⟨hHead, hHasHead⟩
  refine ⟨?_, ?_, h.length, ?_⟩
  · rw [copyEdge?, bind_of_eq_some (edge?_eq he),
      bind_of_eq_some (places?_eq hPlaced he hEnds)]
    refine (bind_of_eq_some hTail _).trans ?_
    refine (bind_of_eq_some hHead _).trans ?_
    exact bind_of_eq_some
      (if_pos ⟨h.hasRoot, hHasTail, hHasHead⟩) _
  · exact (sameTree_addEdge root _ _ _).hasGraph root
      |>.mpr h.hasRoot
  · intro copy hCopy
    exact (sameNodes_addEdge root _ _ _).hasNode copy
      |>.mpr (h.hasNode copy hCopy)

theorem foldlM_copyEdge?_eq
    (h : HoldsCopies root placed.nodes (copies, t))
    (hPlaced : placed.IsPlaced)
    {edges : List EdgeId}
    (hEdges :
      ∀ e ∈ edges, r.HasEdge e ∧ EndsIn r.ends placed.nodes e) :
    edges.foldlM (r.copyEdge? root placed copies) t =
      some (edges.foldl (r.copyEdge root placed copies) t) := by
  induction edges generalizing t with
  | nil => rfl
  | cons e edges ih =>
      rcases List.forall_mem_cons.mp hEdges with
        ⟨⟨he, hEnds⟩, hRest⟩
      rcases copyEdge?_eq h hPlaced he hEnds with ⟨hCopy, hNext⟩
      rw [List.foldlM_cons, bind_of_eq_some hCopy, List.foldl_cons]
      exact ih hNext hRest

end Copying

theorem ofForest?_eq
    (hg : r.HasGraph g)
    {forest : SpanningForest}
    (hPlaced : forest.IsPlaced)
    (hNodes : ∀ n ∈ forest.nodes, r.HasNode n)
    (hEdges :
      ∀ e ∈ forest.edges,
        r.HasEdge e ∧ EndsIn r.ends forest.nodes e) :
    r.ofForest? g forest = some (r.ofForest g forest) := by
  let bare : Registry .plain :=
    ((Registry.plain {}).addGraph
      (.new (r.graph g).name (r.graph g).directed false) none).2
  let start : Registry .plain :=
    bare.modifyGraph copyRoot
      (Graph.setAttributes (r.graph g).attributes.entries)
  have hStart :
      bare.modifyGraph? copyRoot
          (Graph.setAttributes (r.graph g).attributes.entries) =
        some start :=
    if_pos Nat.zero_lt_one
  have hRoot : start.HasGraph copyRoot := by
    rw [← mem_graphIds, graphIds_modifyGraph]
    exact List.mem_cons_self
  have hNone : HoldsCopies copyRoot [] ([], start) :=
    ⟨hRoot, rfl, nofun⟩
  rcases foldlM_copyNode?_eq hNone hNodes with ⟨hCopies, hHolds⟩
  rw [ofForest?, bind_of_eq_some (graph?_eq hg)]
  refine (bind_of_eq_some hStart _).trans ?_
  refine (bind_of_eq_some hCopies _).trans ?_
  exact foldlM_copyEdge?_eq hHolds hPlaced hEdges

theorem IsConsistent.minimumSpanningTree?_eq
    (h : r.IsConsistent)
    (hg : r.HasGraph g) :
    r.minimumSpanningTree? g =
      some (r.minimumSpanningTree g, r.spanningForestJournal g) := by
  have hVisits := h.visitsExtent hg
  have hForest := r.isMinimumForest_spanningForest g
  have hAll := h.hasEdge_of_mem_allEdges hg
  have hNodes : ∀ n ∈ (r.spannedNodes g).nodes, r.HasNode n := by
    intro n hn
    rcases (r.mem_spannedNodes g n).mp hn with
      hn | ⟨e, he, rfl | rfl⟩
    · exact ((hVisits.mem_allNodes_iff n).mp hn).1
    · exact h.listsEdges.hasTail (hAll e he)
    · exact h.listsEdges.hasHead (hAll e he)
  have hEdges :
      ∀ e ∈ (r.spanningForest g).edges,
        r.HasEdge e ∧ EndsIn r.ends (r.spannedNodes g).nodes e := by
    intro e he
    have hMem := hForest.edges_subset he
    exact ⟨hAll e hMem, endsIn_spannedNodes hMem⟩
  rw [minimumSpanningTree?, bind_of_eq_some (h.spanningForest?_eq hg),
    bind_of_eq_some (h.spanningForestJournal?_eq hg),
    bind_of_eq_some
      (ofForest?_eq hg (r.isPlaced_spannedNodes g) hNodes hEdges)]
  rfl

end Registry

end DotLang
