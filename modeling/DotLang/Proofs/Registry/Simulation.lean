import DotLang.Proofs.Registry.Consistency
import DotLang.Proofs.Registry.OpenGraphs

/-
  This file proves that what holds between two builds, and is
  kept when one piece of work is done on both, is kept when the
  same statements are run on both.

  The second build may have other handles for what is in the
  first one.

  Key definitions include:
    * `Simulation`

  Key theorems include:
    * `Simulation.endpoint`
    * `Simulation.stmt`
    * `Simulation.body`
    * `Simulation.within`
-/

------------------------------------------------------------
-- Two Builds
------------------------------------------------------------

namespace DotLang

variable {F G : Factory}

/- The nodes at one end of an edge under other handles. -/
def Build.Ends.map
    (onNode : NodeId → NodeId)
    (ends : Build.Ends) : Build.Ends :=
  { ends with nodes := ends.nodes.map onNode }

/-
  Each piece of work that statements consist of keeps what holds
  between two builds.  The handles of graphs and nodes of the
  first build are turned into those of the second one.
-/
structure Simulation
    (onGraph : GraphId → GraphId)
    (onNode : NodeId → NodeId)
    (Beside : Build F → Build G → Prop) : Prop where
  consistent :
    ∀ {b : Build F} {c : Build G},
      Beside b c → b.registry.IsConsistent
  members :
    ∀ {b : Build F} {c : Build G},
      Beside b c →
        ∀ g : GraphId,
          (c.registry.graph (onGraph g)).members =
            (b.registry.graph g).members.map onNode
  edgeDefaults :
    ∀ {b : Build F} {c : Build G},
      Beside b c →
        ∀ g : GraphId,
          (c.registry.graph (onGraph g)).edgeDefaults =
            (b.registry.graph g).edgeDefaults
  resolveNode :
    ∀ {b : Build F} {c : Build G} {g : GraphId},
      Beside b c →
        b.registry.HasGraph g →
        ∀ name : String,
          (c.resolveNode (onGraph g) name).1 =
              onNode (b.resolveNode g name).1 ∧
            Beside (b.resolveNode g name).2
              (c.resolveNode (onGraph g) name).2
  openSubgraph :
    ∀ {b : Build F} {c : Build G} {g : GraphId},
      Beside b c →
        b.registry.HasGraph g →
        ∀ name : String,
          (c.openSubgraph (onGraph g) name).1 =
              onGraph (b.openSubgraph g name).1 ∧
            Beside (b.openSubgraph g name).2
              (c.openSubgraph (onGraph g) name).2
  pushScope :
    ∀ {b : Build F} {c : Build G} {g : GraphId},
      Beside b c →
        b.registry.HasGraph g →
        Beside (b.update (·.pushScope g))
          (c.update (·.pushScope (onGraph g)))
  popScope :
    ∀ {b : Build F} {c : Build G},
      Beside b c →
        b.registry.scope ≠ [] →
        Beside (b.update (·.popScope)) (c.update (·.popScope))
  addMember :
    ∀ {b : Build F} {c : Build G} {g : GraphId} {n : NodeId},
      Beside b c →
        b.registry.HasGraph g →
        b.registry.HasNode n →
        Beside (b.update (·.addMember g n))
          (c.update (·.addMember (onGraph g) (onNode n)))
  checkArrow :
    ∀ {b : Build F} {c : Build G},
      Beside b c →
        ∀ (g : GraphId) (arrow : Arrow) (location : Location),
          Beside (b.checkArrow g arrow location)
            (c.checkArrow (onGraph g) arrow location)
  connectPair :
    ∀ {b : Build F} {c : Build G} {g : GraphId} {tail head : NodeId},
      Beside b c →
        b.registry.HasGraph g →
        b.registry.HasNode tail →
        b.registry.HasNode head →
        ∀ attributes : AttributeTable,
          Beside (b.connectPair g attributes tail head)
            (c.connectPair (onGraph g) attributes (onNode tail)
              (onNode head))
  applyDefaults :
    ∀ {b : Build F} {c : Build G} {g : GraphId},
      Beside b c →
        b.registry.HasGraph g →
        ∀ (kind : EntityKind) (attributes : List Attribute),
          Beside (b.applyDefaults g kind attributes)
            (c.applyDefaults (onGraph g) kind attributes)
  setGraph :
    ∀ {b : Build F} {c : Build G} {g : GraphId},
      Beside b c →
        b.registry.HasGraph g →
        ∀ attributes : List Attribute,
          Beside
            (b.update
              (·.modifyGraph g (Graph.setAttributes attributes)))
            (c.update
              (·.modifyGraph (onGraph g)
                (Graph.setAttributes attributes)))
  setNode :
    ∀ {b : Build F} {c : Build G} {n : NodeId},
      Beside b c →
        b.registry.HasNode n →
        ∀ attributes : List Attribute,
          Beside
            (b.update
              (·.modifyNode n (Node.setAttributes attributes)))
            (c.update
              (·.modifyNode (onNode n)
                (Node.setAttributes attributes)))

------------------------------------------------------------
-- Lists of Nodes
------------------------------------------------------------

section Running

open Registry

variable {onGraph : GraphId → GraphId} {onNode : NodeId → NodeId}
variable {Beside : Build F → Build G → Prop}
variable {b : Build F} {c : Build G} {scope : GraphId}

theorem Simulation.adoptMembers
    (hSim : Simulation onGraph onNode Beside)
    (h : Beside b c)
    (hScope : b.registry.HasGraph scope)
    {nodes : List NodeId}
    (hNodes : ∀ n ∈ nodes, b.registry.HasNode n) :
    Beside (b.adoptMembers scope nodes)
      (c.adoptMembers (onGraph scope) (nodes.map onNode)) := by
  let After (b' : Build F) (c' : Build G) : Prop :=
    b.registry.Steps b'.registry ∧ Beside b' c'
  suffices hAll :
      After (b.adoptMembers scope nodes)
        (c.adoptMembers (onGraph scope) (nodes.map onNode)) from
    hAll.2
  simp only [Build.adoptMembers, List.foldl_map]
  refine List.foldl_rel ⟨.refl, h⟩ fun n hn b' c' hAfter => ?_
  rcases hAfter with ⟨hSteps, hBeside⟩
  have hGraph := hSteps.hasGraph hScope
  have hNode := hSteps.hasNode (hNodes n hn)
  exact ⟨hSteps.tail (.addMember _ scope n hGraph hNode),
    hSim.addMember hBeside hGraph hNode⟩

theorem Simulation.connect
    (hSim : Simulation onGraph onNode Beside)
    (h : Beside b c)
    (hScope : b.registry.HasGraph scope)
    (attributes : AttributeTable)
    {tails heads : Build.Ends}
    (hTails : ∀ n ∈ tails.nodes, b.registry.HasNode n)
    (hHeads : ∀ n ∈ heads.nodes, b.registry.HasNode n) :
    Beside (b.connect scope attributes tails heads)
      (c.connect (onGraph scope) attributes (tails.map onNode)
        (heads.map onNode)) := by
  let After (b' : Build F) (c' : Build G) : Prop :=
    b.registry.Steps b'.registry ∧ Beside b' c'
  suffices hAll :
      After (b.connect scope attributes tails heads)
        (c.connect (onGraph scope) attributes (tails.map onNode)
          (heads.map onNode)) from hAll.2
  simp only [Build.connect, Build.Ends.map, List.foldl_map]
  refine List.foldl_rel ⟨.refl, h⟩ fun tail hTail _ _ hAfter => ?_
  refine List.foldl_rel hAfter fun head hHead b' c' hAfter => ?_
  rcases hAfter with ⟨hSteps, hBeside⟩
  have hGraph := hSteps.hasGraph hScope
  have hTail := hSteps.hasNode (hTails tail hTail)
  have hHead := hSteps.hasNode (hHeads head hHead)
  exact ⟨hSteps.trans
      (Build.connectPair_steps (hSim.consistent hBeside) hGraph _
        hTail hHead),
    hSim.connectPair hBeside hGraph hTail hHead _⟩

------------------------------------------------------------
-- Running Statements
------------------------------------------------------------

/- A graph is open on both sides while its body is run. -/
theorem Simulation.within_of_body
    (hSim : Simulation onGraph onNode Beside)
    (h : Beside b c)
    {g : GraphId}
    (hg : b.registry.HasGraph g)
    {body : List Stmt}
    (hBody :
      ∀ {b : Build F} {c : Build G},
        Beside b c →
          b.registry.HasGraph g →
          Beside (runBody g b body) (runBody (onGraph g) c body)) :
    Beside
      ((runBody g (b.update (·.pushScope g)) body).update
        (·.popScope))
      ((runBody (onGraph g) (c.update (·.pushScope (onGraph g)))
        body).update (·.popScope)) := by
  refine hSim.popScope (hBody (hSim.pushScope h hg) hg) ?_
  rw [scope_runBody]
  exact List.cons_ne_nil _ _

mutual

theorem Simulation.endpoint
    (hSim : Simulation onGraph onNode Beside)
    {b : Build F}
    {c : Build G}
    {scope : GraphId}
    (h : Beside b c)
    (hScope : b.registry.HasGraph scope) :
    ∀ e : Endpoint,
      (e.run (onGraph scope) c).1 =
          (e.run scope b).1.map onNode ∧
        Beside (e.run scope b).2 (e.run (onGraph scope) c).2
| .node ref => by
    rcases hSim.resolveNode h hScope ref.name with ⟨hNode, hAfter⟩
    refine ⟨?_, hAfter⟩
    simp only [Endpoint.run, hNode]
    rfl
| .subgraph name body => by
    have hConsistent := hSim.consistent h
    rcases hSim.openSubgraph h hScope name with ⟨hGraph, hOpen⟩
    have hg := (Build.openSubgraph_steps hConsistent hScope name).2
    have hRun := hSim.within_of_body hOpen hg
      (fun h hg => hSim.body h hg body)
    have hSteps := subgraph_steps hConsistent hScope name
      (fun h hg => runBody_steps h hg body)
    have hNodes := (hSim.consistent hRun).listsNodes
    simp only [Endpoint.run, hGraph, hSim.members hRun]
    exact ⟨rfl,
      hSim.adoptMembers hRun (hSteps.hasGraph hScope)
        fun _ => hNodes.hasNode⟩

theorem Simulation.steps
    (hSim : Simulation onGraph onNode Beside)
    {b : Build F}
    {c : Build G}
    {scope : GraphId}
    (attributes : AttributeTable)
    {tails : Build.Ends}
    (h : Beside b c)
    (hScope : b.registry.HasGraph scope)
    (hTails : ∀ n ∈ tails.nodes, b.registry.HasNode n) :
    ∀ steps : List EdgeStep,
      Beside (runSteps scope attributes tails b steps)
        (runSteps (onGraph scope) attributes (tails.map onNode) c
          steps)
| [] => h
| .mk arrow location head :: rest => by
    have hArrow := Build.checkArrow_steps b scope arrow location
    have hScope' := hArrow.hasGraph hScope
    have hWarned := hSim.checkArrow h scope arrow location
    have hHead :=
      Endpoint.run_steps (hSim.consistent hWarned) hScope' head
    rcases hSim.endpoint hWarned hScope' head with ⟨hEnds, hAfter⟩
    have hBefore := hArrow.trans hHead.1
    have hTails' := fun n hn => hBefore.hasNode (hTails n hn)
    have hGraph := hBefore.hasGraph hScope
    have hConnect :=
      Build.connect_steps (hSim.consistent hAfter) hGraph attributes
        hTails' hHead.2
    simp only [runSteps, hEnds]
    exact hSim.steps attributes
      (hSim.connect hAfter hGraph attributes hTails' hHead.2)
      (hConnect.hasGraph hGraph)
      (fun n hn => hConnect.hasNode (hHead.2 n hn)) rest

theorem Simulation.stmt
    (hSim : Simulation onGraph onNode Beside)
    {b : Build F}
    {c : Build G}
    {scope : GraphId}
    (h : Beside b c)
    (hScope : b.registry.HasGraph scope) :
    ∀ stmt : Stmt,
      Beside (stmt.run scope b) (stmt.run (onGraph scope) c)
| .edge tail steps attributes => by
    have hTail :=
      Endpoint.run_steps (hSim.consistent h) hScope tail
    rcases hSim.endpoint h hScope tail with ⟨hEnds, hAfter⟩
    simp only [Stmt.run, hSim.edgeDefaults h, hEnds]
    exact hSim.steps _ hAfter (hTail.1.hasGraph hScope) hTail.2 steps
| .node ref attributes => by
    have hHas :=
      (Build.resolveNode_steps (hSim.consistent h) hScope ref.name).2
    rcases hSim.resolveNode h hScope ref.name with ⟨hNode, hAfter⟩
    simp only [Stmt.run, hNode]
    exact hSim.setNode hAfter hHas attributes
| .defaults kind attributes =>
    hSim.applyDefaults h hScope kind attributes
| .assign attr => hSim.setGraph h hScope [attr]
| .subgraph name body => by
    rcases hSim.openSubgraph h hScope name with ⟨hGraph, hOpen⟩
    have hg :=
      (Build.openSubgraph_steps (hSim.consistent h) hScope name).2
    simp only [Stmt.run, hGraph]
    exact hSim.within_of_body hOpen hg
      (fun h hg => hSim.body h hg body)

theorem Simulation.body
    (hSim : Simulation onGraph onNode Beside)
    {b : Build F}
    {c : Build G}
    {scope : GraphId}
    (h : Beside b c)
    (hScope : b.registry.HasGraph scope) :
    ∀ body : List Stmt,
      Beside (runBody scope b body)
        (runBody (onGraph scope) c body)
| [] => h
| stmt :: rest =>
    hSim.body (hSim.stmt h hScope stmt)
      ((Stmt.run_steps (hSim.consistent h) hScope stmt).hasGraph
        hScope)
      rest

end

theorem Simulation.within
    (hSim : Simulation onGraph onNode Beside)
    (h : Beside b c)
    {g : GraphId}
    (hg : b.registry.HasGraph g)
    (body : List Stmt) :
    Beside
      ((runBody g (b.update (·.pushScope g)) body).update
        (·.popScope))
      ((runBody (onGraph g) (c.update (·.pushScope (onGraph g)))
        body).update (·.popScope)) :=
  hSim.within_of_body h hg fun h hg => hSim.body h hg body

end Running

end DotLang
