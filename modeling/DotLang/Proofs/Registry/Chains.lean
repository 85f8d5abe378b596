import DotLang.Proofs.Registry.Bare
import DotLang.Proofs.Registry.InStep

/-
  This file proves that a chain of edges between nodes is the
  same as its links, each written as a statement of its own with
  the attributes of the chain.

  A node between two links is looked up once in the chain, and
  in the statements once more; it is found where it was left.

  Key definitions include:
    * `Link`
    * `linkStmts`
    * `Registry.Mentions`
    * `Build.IsAtLink`

  Key theorems include:
    * `Build.mentions_resolveNode`
    * `Build.IsAtLink.next`
    * `Stmt.run_chain`
-/

------------------------------------------------------------
-- Links
------------------------------------------------------------

namespace DotLang

/- An edge operator, its place, and the node behind it. -/
structure Link where
  arrow : Arrow
  location : Location
  head : NodeRef

def Link.step (link : Link) : EdgeStep :=
  .mk link.arrow link.location (.node link.head)

/-
  One statement for each link of a chain.  It starts where the
  one before it ends.
-/
def linkStmts
    (attributes : List Attribute)
    (tail : NodeRef) : List Link → List Stmt
| [] => []
| link :: rest =>
    .edge (.node tail) [link.step] attributes ::
      linkStmts attributes link.head rest

------------------------------------------------------------
-- Mentioned Nodes
------------------------------------------------------------

namespace Registry

variable {F : Factory} {r s : Registry F} {g : GraphId}
variable {name : String} {n : NodeId}

/- A name stands for a node that the graph mentions already. -/
structure Mentions
    (r : Registry F)
    (g : GraphId)
    (name : String)
    (n : NodeId) : Prop where
  resolves : r.resolveNode? g name = some n
  member : n ∈ (r.graph g).members

theorem Mentions.of_sameBare
    (hMentions : r.Mentions g name n)
    (hSame : SameBare r s) :
    s.Mentions g name n where
  resolves := by
    rw [hSame.resolveNode?_eq]
    exact hMentions.resolves
  member := by
    rw [hSame.view_graph Graph.members fun _ => rfl]
    exact hMentions.member

theorem resolveNode?_addMember
    (g : GraphId)
    (n : NodeId)
    (h : GraphId)
    (name : String) :
    (r.addMember g n).resolveNode? h name =
      r.resolveNode? h name := by
  have hTree := sameTree_addMember (r := r) g n
  have hSize : (r.addMember g n).graphs.size = r.graphs.size := by
    simp [addMember, modifyGraph]
  exact resolveNode?_congr hSize hTree.parent hTree.children
    (view_graph_addMember g n Graph.nodeIndex fun _ _ _ => rfl)
    h name

/- The name of a new node stands for it where it was made. -/
theorem resolveNode?_declareNode
    (h : r.IsConsistent)
    (hg : r.HasGraph g)
    (name : String) :
    (r.declareNode g name).resolveNode? g name =
      some r.nextNode := by
  let made : Registry F :=
    (r.addNode g name (r.graph g).nodeDefaults).2
  have hTree : SameTree r made := sameTree_addNode g name _
  have hForest : made.IsForest := h.isForest.of_sameTree hTree
  rw [declareNode, resolveNode?_addMember, resolveNode?_eq,
    hForest.lineage_eq_cons ((hTree.hasGraph g).mpr hg),
    List.cons_append, List.findSome?_cons,
    localNode?_addNode hg, if_pos ⟨rfl, rfl⟩]

end Registry

------------------------------------------------------------
-- Looking Up Again
------------------------------------------------------------

open Registry

namespace Build

variable {F : Factory} {b : Build F} {scope : GraphId}
variable {name : String} {n : NodeId}

theorem mentions_resolveNode
    (h : b.registry.IsConsistent)
    (hScope : b.registry.HasGraph scope)
    (name : String) :
    (b.resolveNode scope name).2.registry.Mentions scope name
      (b.resolveNode scope name).1 where
  resolves := by
    cases hFind : b.registry.resolveNode? scope name with
    | none =>
        rw [resolveNode_of_none hFind]
        exact resolveNode?_declareNode h hScope name
    | some n =>
        rw [resolveNode_of_some hFind]
        exact (resolveNode?_addMember scope n scope name).trans hFind
  member := mem_members_resolveNode h.isIndexed hScope name

theorem edgeDefaults_resolveNode
    (b : Build F)
    (scope : GraphId)
    (name : String)
    (g : GraphId) :
    ((b.resolveNode scope name).2.registry.graph g).edgeDefaults =
      (b.registry.graph g).edgeDefaults := by
  have hMember :
      ∀ (r : Registry F) (n : NodeId),
        ((r.addMember scope n).graph g).edgeDefaults =
          (r.graph g).edgeDefaults := fun r n =>
    view_graph_addMember scope n Graph.edgeDefaults
      (fun _ _ _ => rfl) g
  cases hFind : b.registry.resolveNode? scope name with
  | none =>
      rw [resolveNode_of_none hFind]
      exact (hMember _ _).trans
        (view_graph_addNode scope name _ Graph.edgeDefaults
          (fun _ _ _ => rfl) g)
  | some n =>
      rw [resolveNode_of_some hFind]
      exact hMember _ n

/- Names and members stay as they are while edges are made. -/
theorem sameBare_connectPair
    (b : Build F)
    (scope : GraphId)
    (attributes : AttributeTable)
    (tail head : NodeId) :
    SameBare b.registry
      (b.connectPair scope attributes tail head).registry := by
  rcases connectPair_cases b scope attributes tail head with
    ⟨e, -, -, hConnect⟩ | ⟨-, hConnect⟩
  · rw [hConnect]
    exact .modifyEdge _ _ _
  · rw [hConnect]
    exact .addEdge _ _ _ _ _

theorem sameBare_connect
    (b : Build F)
    (scope : GraphId)
    (attributes : AttributeTable)
    (tails heads : Ends) :
    SameBare b.registry
      (b.connect scope attributes tails heads).registry := by
  refine connect_induct
    (motive := fun b' => SameBare b.registry b'.registry)
    (.refl _) ?_
  intro b' hBefore tail _ head _
  exact hBefore.trans (sameBare_connectPair b' scope _ tail head)

------------------------------------------------------------
-- From Link to Link
------------------------------------------------------------

/-
  A build in which the tail of a link was looked up, and edges
  get the attributes in a table.
-/
structure IsAtLink
    (b : Build F)
    (scope : GraphId)
    (attributes : List Attribute)
    (table : AttributeTable)
    (tail : NodeRef)
    (n : NodeId) : Prop where
  isConsistent : b.registry.IsConsistent
  hasGraph : b.registry.HasGraph scope
  mentions : b.registry.Mentions scope tail.name n
  table_eq :
    (b.registry.graph scope).edgeDefaults.setAll attributes = table

variable {attributes : List Attribute} {table : AttributeTable}
variable {tail : NodeRef}

theorem IsAtLink.resolveNode_eq
    (h : b.IsAtLink scope attributes table tail n) :
    b.resolveNode scope tail.name = (n, b) :=
  resolveNode_of_member h.isConsistent.isIndexed h.mentions.resolves
    h.mentions.member

theorem isAtLink_resolveNode
    (h : b.registry.IsConsistent)
    (hScope : b.registry.HasGraph scope)
    (attributes : List Attribute)
    (tail : NodeRef) :
    (b.resolveNode scope tail.name).2.IsAtLink scope attributes
      ((b.registry.graph scope).edgeDefaults.setAll attributes) tail
      (b.resolveNode scope tail.name).1 where
  isConsistent :=
    (resolveNode_steps h hScope tail.name).1.isConsistent h
  hasGraph :=
    (resolveNode_steps h hScope tail.name).1.hasGraph hScope
  mentions := mentions_resolveNode h hScope tail.name
  table_eq := by
    rw [edgeDefaults_resolveNode]

/- The head of a link is the tail of the next one. -/
theorem IsAtLink.next
    (h : b.IsAtLink scope attributes table tail n)
    (link : Link) :
    let checked : Build F :=
      b.checkArrow scope link.arrow link.location
    let head : NodeId :=
      (checked.resolveNode scope link.head.name).1
    let resolved : Build F :=
      (checked.resolveNode scope link.head.name).2
    (resolved.connect scope table ⟨[n], tail.port⟩
      ⟨[head], link.head.port⟩).IsAtLink scope attributes table
        link.head head := by
  intro checked head resolved
  have hArrow :=
    checkArrow_steps b scope link.arrow link.location
  have hAtHead := isAtLink_resolveNode
    (hArrow.isConsistent h.isConsistent) (hArrow.hasGraph h.hasGraph)
    attributes link.head
  have hResolve := resolveNode_steps
    (hArrow.isConsistent h.isConsistent) (hArrow.hasGraph h.hasGraph)
    link.head.name
  have hTail :
      ∀ m ∈ [n], resolved.registry.HasNode m := by
    intro m hm
    rw [List.mem_singleton.mp hm]
    exact (hArrow.trans hResolve.1).hasNode
      (hasNode_of_resolveNode?_eq_some h.isConsistent
        h.mentions.resolves)
  have hHead :
      ∀ m ∈ [head], resolved.registry.HasNode m := by
    intro m hm
    rw [List.mem_singleton.mp hm]
    exact hResolve.2
  have hConnect :
      Steps resolved.registry
        (resolved.connect scope table ⟨[n], tail.port⟩
          ⟨[head], link.head.port⟩).registry :=
    connect_steps hAtHead.isConsistent hAtHead.hasGraph table hTail
      hHead
  have hSame := sameBare_connect resolved scope table
    ⟨[n], tail.port⟩ ⟨[head], link.head.port⟩
  constructor
  · exact hConnect.isConsistent hAtHead.isConsistent
  · exact hConnect.hasGraph hAtHead.hasGraph
  · exact hAtHead.mentions.of_sameBare hSame
  · rw [hSame.view_graph Graph.edgeDefaults fun _ => rfl,
      hAtHead.table_eq, graph_checkArrow, h.table_eq]

end Build

------------------------------------------------------------
-- Chains
------------------------------------------------------------

section Chains

variable {F : Factory} {b : Build F} {scope : GraphId}
variable {attributes : List Attribute} {table : AttributeTable}
variable {tail : NodeRef} {n : NodeId}

theorem Build.IsAtLink.runSteps_eq
    (h : b.IsAtLink scope attributes table tail n)
    (links : List Link) :
    runSteps scope table ⟨[n], tail.port⟩ b (links.map Link.step) =
      runBody scope b (linkStmts attributes tail links) := by
  induction links generalizing b tail n with
  | nil => rfl
  | cons link rest ih =>
      have hFirst :
          (Stmt.edge (.node tail) [link.step] attributes).run scope
              b =
            runSteps scope table ⟨[n], tail.port⟩ b [link.step] := by
        simp only [Stmt.run, Endpoint.run, h.resolveNode_eq,
          h.table_eq]
      rw [linkStmts, runBody, hFirst]
      exact ih (h.next link)

/-
  A chain of nodes, with any ports and whatever nodes it goes
  through again, does what its links do one after the other.
-/
theorem Stmt.run_chain
    (factory : F.State)
    (options : Options)
    (hOperates : Operates (.empty factory options) b.registry)
    (hScope : b.registry.HasGraph scope)
    (tail : NodeRef)
    (link : Link)
    (rest : List Link)
    (attributes : List Attribute) :
    (Stmt.edge (.node tail) ((link :: rest).map Link.step)
        attributes).run scope b =
      runBody scope b (linkStmts attributes tail (link :: rest)) := by
  have hTail := Build.isAtLink_resolveNode hOperates.isConsistent
    hScope attributes tail
  let n : NodeId := (b.resolveNode scope tail.name).1
  let resolved : Build F := (b.resolveNode scope tail.name).2
  -- the first statement looks the tail up, as the chain does
  have hFirst :
      (Stmt.edge (.node tail) [link.step] attributes).run scope
          resolved =
        (Stmt.edge (.node tail) [link.step] attributes).run scope
          b := by
    simp only [Stmt.run, Endpoint.run, hTail.resolveNode_eq,
      hTail.table_eq, resolved]
  calc
    (Stmt.edge (.node tail) ((link :: rest).map Link.step)
        attributes).run scope b
    _ = runBody scope resolved
          (linkStmts attributes tail (link :: rest)) :=
        hTail.runSteps_eq (link :: rest)
    _ = runBody scope b
          (linkStmts attributes tail (link :: rest)) := by
        rw [linkStmts, runBody, runBody, hFirst]

/-
  In a strict graph all links of a chain may be one edge, which
  gets the ports of each link that has them.
-/
theorem Stmt.run_chain_strict :
    let r : Registry .plain :=
      ((empty () {}).load
        ("strict graph \x7b edge [color=red] a -- b " ++
          "subgraph s \x7b c \x7d \x7d")).registry
    let b : Build .plain := .start (r.pushScope ⟨0⟩)
    let tail : NodeRef := ⟨"a", some "n"⟩
    let link : Link := ⟨.undirected, ⟨3, 5, 60⟩, ⟨"c", some "e"⟩⟩
    let rest : List Link :=
      [⟨.directed, ⟨3, 12, 67⟩, ⟨"a", some "s"⟩⟩,
        ⟨.undirected, ⟨3, 19, 74⟩, ⟨"c", none⟩⟩]
    let attributes : List Attribute := [⟨"label", .plain "x"⟩]
    let ran : Build .plain :=
      (Stmt.edge (.node tail) ((link :: rest).map Link.step)
        attributes).run ⟨0⟩ b
    ran =
        runBody ⟨0⟩ b
          (linkStmts attributes tail (link :: rest)) ∧
      (ran.registry.graph ⟨0⟩).edges = [⟨0⟩, ⟨1⟩] ∧
      (ran.registry.edge ⟨1⟩).attributes.entries =
        [⟨"color", .plain "red"⟩, ⟨"label", .plain "x"⟩,
          ⟨"tailport", .plain "s"⟩, ⟨"headport", .plain "s"⟩] ∧
      ran.registry.diagnostics.length = 1 := by
  intro r b tail link rest attributes ran
  have hScope : r.HasGraph ⟨0⟩ := by
    decide +kernel
  have hOperates :
      Operates (empty () {} : Registry .plain) b.registry :=
    .step (.pushScope r ⟨0⟩ hScope) (.load _ .none)
  refine ⟨Stmt.run_chain (F := .plain) () {} hOperates hScope tail
    link rest attributes, ?_⟩
  decide +kernel

end Chains

end DotLang
