import DotLang.Proofs.Registry.Built
import Mathlib.Algebra.Ring.Nat

/-
  This file defines chronicles, which tell how a registry came
  about: what was done to it, in order, and how it looked right
  after each statement, however deep the statement is nested.

  Statements run in a chronicle as they run without one.

  Key definitions include:
    * `Deed`
    * `Moment`
    * `Chronicle`
    * `Stmt.record`
    * `Stmt.count`
    * `Chronicle.ofGraphs`
    * `Chronicle.ofTexts`

  Key theorems include:
    * `Stmt.build_record`
    * `Stmt.length_passed_record`
    * `Chronicle.build_ofGraphs`
    * `Chronicle.registry_ofTexts`
-/

------------------------------------------------------------
-- Deeds
------------------------------------------------------------

namespace DotLang

/-
  The edges that an edge statement makes between two neighbours:
  those numbered from `first` on, and below `last`.  When the
  statement began there were `begun` deeds.
-/
structure Connection where
  scope : GraphId
  begun : Nat
  attributes : List Attribute
  tailPort : Option String
  headPort : Option String
  first : Nat
  last : Nat
deriving DecidableEq, Repr

/- What is done to the graphs, nodes and edges of a registry. -/
inductive Deed where
| opened (g : GraphId)
| setDefaults
    (scope : GraphId)
    (kind : EntityKind)
    (attributes : List Attribute)
| assigned (scope : GraphId) (attr : Attribute)
| nodeMade (n : NodeId)
| nodeSet (n : NodeId) (attributes : List Attribute)
| connected (c : Connection)
deriving DecidableEq, Repr

------------------------------------------------------------
-- Chronicles
------------------------------------------------------------

/- A registry, and all that was done to it before. -/
structure Moment (F : Factory) where
  registry : Registry F
  deeds : List Deed

/-
  A build with what was done so far, and the moments right after
  the statements that were run so far.
-/
structure Chronicle (F : Factory) where
  build : Build F
  deeds : List Deed
  passed : List (Moment F)

namespace Chronicle

variable {F : Factory}

/- A chronicle in which nothing was done. -/
def start (r : Registry F) : Chronicle F where
  build := .start r
  deeds := []
  passed := []

/- How things stand. -/
def moment (c : Chronicle F) : Moment F where
  registry := c.build.registry
  deeds := c.deeds

/- Note that a statement was run. -/
def pass (c : Chronicle F) : Chronicle F :=
  { c with passed := c.passed ++ [c.moment] }

/- Go on to a build, to which some deeds led. -/
def goOn
    (c : Chronicle F)
    (b : Build F)
    (deeds : List Deed) : Chronicle F :=
  { c with
    build := b
    deeds := c.deeds ++ deeds }

@[simp] theorem build_goOn
    (c : Chronicle F)
    (b : Build F)
    (deeds : List Deed) :
    (c.goOn b deeds).build = b := rfl

@[simp] theorem build_pass
    (c : Chronicle F) :
    c.pass.build = c.build := rfl

/- The node that a name stands for, which is made if need be. -/
def resolveNode
    (c : Chronicle F)
    (scope : GraphId)
    (name : String) : NodeId × Chronicle F :=
  let (n, b) := c.build.resolveNode scope name
  (n,
    c.goOn b
      (if c.build.registry.HasNode n then [] else [.nodeMade n]))

/- The subgraph with a name, which is made if need be. -/
def openSubgraph
    (c : Chronicle F)
    (scope : GraphId)
    (name : String) : GraphId × Chronicle F :=
  let (g, b) := c.build.openSubgraph scope name
  (g,
    c.goOn b
      (if c.build.registry.HasGraph g then [] else [.opened g]))

/- Connect the nodes at two neighbouring ends of a statement. -/
def connect
    (c : Chronicle F)
    (scope : GraphId)
    (begun : Nat)
    (attributes : List Attribute)
    (table : AttributeTable)
    (tails heads : Build.Ends) : Chronicle F :=
  let b := c.build.connect scope table tails heads
  c.goOn b
    [.connected
      { scope := scope
        begun := begun
        attributes := attributes
        tailPort := tails.port
        headPort := heads.port
        first := c.build.registry.edges.size
        last := b.registry.edges.size }]

end Chronicle

------------------------------------------------------------
-- Statements in a Chronicle
------------------------------------------------------------

section Recording

variable {F : Factory}

mutual

/- The nodes at one end of an edge. -/
def Endpoint.record
    (scope : GraphId)
    (c : Chronicle F) : Endpoint → Build.Ends × Chronicle F
| .node ref =>
    let (n, c) := c.resolveNode scope ref.name
    (⟨[n], ref.port⟩, c)
| .subgraph name body =>
    let (g, c) := c.openSubgraph scope name
    let c := c.goOn (c.build.update (·.pushScope g)) []
    let c := recordBody g c body
    let c := c.goOn (c.build.update (·.popScope)) []
    let nodes := (c.build.registry.graph g).members
    (⟨nodes, none⟩, c.goOn (c.build.adoptMembers scope nodes) [])

/- Connect the ends of an edge statement, one after the other. -/
def recordSteps
    (scope : GraphId)
    (begun : Nat)
    (attributes : List Attribute)
    (table : AttributeTable)
    (tails : Build.Ends)
    (c : Chronicle F) : List EdgeStep → Chronicle F
| [] => c
| .mk arrow location head :: rest =>
    let c := c.goOn (c.build.checkArrow scope arrow location) []
    let (heads, c) := head.record scope c
    let c := c.connect scope begun attributes table tails heads
    recordSteps scope begun attributes table heads c rest

/- Run a statement, and note how things stand after it. -/
def Stmt.record
    (scope : GraphId)
    (c : Chronicle F) : Stmt → Chronicle F
| .edge tail steps attributes =>
    let begun := c.deeds.length
    let table :=
      (c.build.registry.graph scope).edgeDefaults.setAll attributes
    let (tails, c) := tail.record scope c
    (recordSteps scope begun attributes table tails c steps).pass
| .node ref attributes =>
    let (n, c) := c.resolveNode scope ref.name
    let b := c.build.update
      (·.modifyNode n (Node.setAttributes attributes))
    (c.goOn b [.nodeSet n attributes]).pass
| .defaults kind attributes =>
    let b := c.build.applyDefaults scope kind attributes
    (c.goOn b [.setDefaults scope kind attributes]).pass
| .assign attr =>
    let b := c.build.update
      (·.modifyGraph scope (Graph.setAttributes [attr]))
    (c.goOn b [.assigned scope attr]).pass
| .subgraph name body =>
    let (g, c) := c.openSubgraph scope name
    let c := c.goOn (c.build.update (·.pushScope g)) []
    let c := recordBody g c body
    (c.goOn (c.build.update (·.popScope)) []).pass

/- Run statements, one after the other. -/
def recordBody
    (scope : GraphId)
    (c : Chronicle F) : List Stmt → Chronicle F
| [] => c
| stmt :: rest => recordBody scope (stmt.record scope c) rest

end

/- Make a top level graph and run its statements. -/
def GraphDecl.record
    (c : Chronicle F)
    (decl : GraphDecl) : Chronicle F :=
  let (g, b) :=
    c.build.makeGraph
      (.new decl.name decl.directed decl.strict) none
  let c := c.goOn (b.update (·.pushScope g)) [.opened g]
  let c := recordBody g c decl.body
  c.goOn (c.build.update (·.popScope)) []

namespace Chronicle

/- Make top level graphs, one after the other. -/
def ofGraphs
    (r : Registry F)
    (decls : List GraphDecl) : Chronicle F :=
  decls.foldl GraphDecl.record (.start r)

/- Add the graphs of a text. -/
def load (c : Chronicle F) (text : String) : Chronicle F :=
  let r := c.build.registry
  let restart := fun diagnostics =>
    c.goOn
      (.start { r with diagnostics := r.diagnostics ++ diagnostics })
      []
  match Parser.file (.ofText text.toList r.options) with
  | .ok decls p =>
      decls.foldl GraphDecl.record (restart p.diagnostics)
  | .error _ p => restart p.diagnostics

/- Add the graphs of texts, one after the other. -/
def ofTexts
    (r : Registry F)
    (texts : List String) : Chronicle F :=
  texts.foldl load (.start r)

end Chronicle

end Recording

------------------------------------------------------------
-- Builds in a Chronicle
------------------------------------------------------------

section Builds

variable {F : Factory}

mutual

/- A chronicle makes no difference to what is built. -/
theorem Endpoint.build_record
    (scope : GraphId)
    (c : Chronicle F) :
    ∀ e : Endpoint,
      (e.record scope c).1 = (e.run scope c.build).1 ∧
        (e.record scope c).2.build = (e.run scope c.build).2
| .node ref => ⟨rfl, rfl⟩
| .subgraph name body => by
    simp only [Endpoint.record, Endpoint.run,
      Chronicle.openSubgraph, Chronicle.build_goOn,
      build_recordBody, and_self]

theorem build_recordSteps
    (scope : GraphId)
    (begun : Nat)
    (attributes : List Attribute)
    (table : AttributeTable)
    (tails : Build.Ends)
    (c : Chronicle F) :
    ∀ steps : List EdgeStep,
      (recordSteps scope begun attributes table tails c
          steps).build =
        runSteps scope table tails c.build steps
| [] => rfl
| .mk arrow location head :: rest => by
    have hHead := Endpoint.build_record scope
      (c.goOn (c.build.checkArrow scope arrow location) []) head
    rw [recordSteps, runSteps, build_recordSteps]
    rw [Chronicle.build_goOn] at hHead
    simp only [Chronicle.connect, Chronicle.build_goOn, hHead]

theorem Stmt.build_record
    (scope : GraphId)
    (c : Chronicle F) :
    ∀ stmt : Stmt,
      (stmt.record scope c).build = stmt.run scope c.build
| .edge tail steps attributes => by
    have hTail := Endpoint.build_record scope c tail
    simp only [Stmt.record, Stmt.run, Chronicle.build_pass,
      build_recordSteps, hTail]
| .node ref attributes => rfl
| .defaults kind attributes => rfl
| .assign attr => rfl
| .subgraph name body => by
    simp only [Stmt.record, Stmt.run, Chronicle.openSubgraph,
      Chronicle.build_pass, Chronicle.build_goOn, build_recordBody]

theorem build_recordBody
    (scope : GraphId)
    (c : Chronicle F) :
    ∀ body : List Stmt,
      (recordBody scope c body).build =
        runBody scope c.build body
| [] => rfl
| stmt :: rest => by
    rw [recordBody, runBody, build_recordBody, Stmt.build_record]

end

theorem GraphDecl.build_record
    (c : Chronicle F)
    (decl : GraphDecl) :
    (decl.record c).build = decl.run c.build := by
  simp only [GraphDecl.record, GraphDecl.run,
    Chronicle.build_goOn, build_recordBody]

namespace Chronicle

theorem build_foldl
    (decls : List GraphDecl)
    (c : Chronicle F) :
    (decls.foldl GraphDecl.record c).build =
      decls.foldl GraphDecl.run c.build := by
  induction decls generalizing c with
  | nil => rfl
  | cons decl decls ih =>
      rw [List.foldl_cons, List.foldl_cons, ih,
        GraphDecl.build_record]

theorem build_ofGraphs
    (r : Registry F)
    (decls : List GraphDecl) :
    (ofGraphs r decls).build = runGraphs r decls :=
  build_foldl decls (.start r)

theorem registry_load
    (c : Chronicle F)
    (text : String) :
    (c.load text).build.registry =
      (c.build.registry.load text).registry := by
  unfold load Registry.load
  cases hFile :
      Parser.file (.ofText text.toList c.build.registry.options) with
  | ok decls p =>
      simp only [hFile, build_foldl, build_goOn]
      rfl
  | error d p =>
      simp only [hFile]
      rfl

theorem registry_ofTexts
    (r : Registry F)
    (texts : List String) :
    (ofTexts r texts).build.registry =
      texts.foldl (fun r text => (r.load text).registry) r := by
  suffices hAll :
      ∀ c : Chronicle F,
        (texts.foldl load c).build.registry =
          texts.foldl (fun r text => (r.load text).registry)
            c.build.registry from hAll (.start r)
  induction texts with
  | nil => exact fun _ => rfl
  | cons text texts ih =>
      intro c
      rw [List.foldl_cons, List.foldl_cons, ih, registry_load]

end Chronicle

end Builds

------------------------------------------------------------
-- Moments in a Chronicle
------------------------------------------------------------

section Moments

variable {F : Factory}

mutual

/- How many statements are run, at any depth. -/
def Endpoint.count : Endpoint → Nat
| .node _ => 0
| .subgraph _ body => countBody body

def countSteps : List EdgeStep → Nat
| [] => 0
| .mk _ _ head :: rest => head.count + countSteps rest

def Stmt.count : Stmt → Nat
| .edge tail steps _ => tail.count + countSteps steps + 1
| .subgraph _ body => countBody body + 1
| _ => 1

def countBody : List Stmt → Nat
| [] => 0
| stmt :: rest => stmt.count + countBody rest

end

@[simp] theorem Chronicle.passed_goOn
    (c : Chronicle F)
    (b : Build F)
    (deeds : List Deed) :
    (c.goOn b deeds).passed = c.passed := rfl

@[simp] theorem Chronicle.length_passed_pass
    (c : Chronicle F) :
    c.pass.passed.length = c.passed.length + 1 := by
  simp [Chronicle.pass]

mutual

/- There is one moment for each statement that was run. -/
theorem Endpoint.length_passed_record
    (scope : GraphId)
    (c : Chronicle F) :
    ∀ e : Endpoint,
      (e.record scope c).2.passed.length =
        c.passed.length + e.count
| .node ref => rfl
| .subgraph name body => by
    simp only [Endpoint.record, Endpoint.count,
      Chronicle.openSubgraph, Chronicle.passed_goOn,
      length_passed_recordBody]

theorem length_passed_recordSteps
    (scope : GraphId)
    (begun : Nat)
    (attributes : List Attribute)
    (table : AttributeTable)
    (tails : Build.Ends)
    (c : Chronicle F) :
    ∀ steps : List EdgeStep,
      (recordSteps scope begun attributes table tails c
          steps).passed.length =
        c.passed.length + countSteps steps
| [] => rfl
| .mk arrow location head :: rest => by
    rw [recordSteps, length_passed_recordSteps]
    simp only [Chronicle.connect, Chronicle.passed_goOn, countSteps,
      Endpoint.length_passed_record, Nat.add_assoc]

theorem Stmt.length_passed_record
    (scope : GraphId)
    (c : Chronicle F) :
    ∀ stmt : Stmt,
      (stmt.record scope c).passed.length =
        c.passed.length + stmt.count
| .edge tail steps attributes => by
    simp only [Stmt.record, Stmt.count,
      Chronicle.length_passed_pass, length_passed_recordSteps,
      Endpoint.length_passed_record, Nat.add_assoc]
| .node ref attributes => Chronicle.length_passed_pass _
| .defaults kind attributes => Chronicle.length_passed_pass _
| .assign attr => Chronicle.length_passed_pass _
| .subgraph name body => by
    simp only [Stmt.record, Stmt.count, Chronicle.openSubgraph,
      Chronicle.length_passed_pass, Chronicle.passed_goOn,
      length_passed_recordBody, Nat.add_assoc]

theorem length_passed_recordBody
    (scope : GraphId)
    (c : Chronicle F) :
    ∀ body : List Stmt,
      (recordBody scope c body).passed.length =
        c.passed.length + countBody body
| [] => rfl
| stmt :: rest => by
    rw [recordBody, length_passed_recordBody,
      Stmt.length_passed_record, countBody, Nat.add_assoc]

end

theorem GraphDecl.length_passed_record
    (c : Chronicle F)
    (decl : GraphDecl) :
    (decl.record c).passed.length =
      c.passed.length + countBody decl.body := by
  simp only [GraphDecl.record, Chronicle.passed_goOn,
    length_passed_recordBody]

theorem Chronicle.length_passed_ofGraphs
    (r : Registry F)
    (decls : List GraphDecl) :
    (ofGraphs r decls).passed.length =
      (decls.map fun decl => countBody decl.body).sum := by
  suffices hAll :
      ∀ c : Chronicle F,
        (decls.foldl GraphDecl.record c).passed.length =
          c.passed.length +
            (decls.map fun decl => countBody decl.body).sum from
    (hAll (.start r)).trans (Nat.zero_add _)
  induction decls with
  | nil => exact fun _ => rfl
  | cons decl decls ih =>
      intro c
      rw [List.foldl_cons, ih, GraphDecl.length_passed_record,
        List.map_cons, List.sum_cons, Nat.add_assoc]

end Moments

end DotLang
