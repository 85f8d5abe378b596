import DotLang.Proofs.Registry.OpenGraphs
import DotLang.Proofs.Registry.Persistence

/-
  This file proves that a subgraph statement whose name was used
  before goes on where the earlier one stopped: the two do what
  one statement with both bodies does.

  Key theorems include:
    * `Stmt.openSubgraph_run_subgraph`
    * `Stmt.run_subgraph_append`
-/

------------------------------------------------------------
-- Opening Again
------------------------------------------------------------

namespace DotLang

open Registry

variable {F : Factory} {b : Build F} {scope : GraphId}

/- The graph in which a body was run is opened once more. -/
theorem pushScope_runBody
    (g : GraphId)
    (b : Build F)
    (body : List Stmt) :
    ((runBody g (b.update (·.pushScope g)) body).update
        (·.popScope)).update (·.pushScope g) =
      runBody g (b.update (·.pushScope g)) body := by
  let ran : Build F := runBody g (b.update (·.pushScope g)) body
  have hScope : ran.registry.scope = g :: b.registry.scope :=
    scope_runBody g _ body
  have hRegistry :
      ran.registry.popScope.pushScope g = ran.registry := by
    rw [pushScope, popScope, hScope, List.tail_cons, ← hScope]
  change { ran with registry := ran.registry.popScope.pushScope g } =
    ran
  rw [hRegistry]

namespace Stmt

theorem run_subgraph
    (scope : GraphId)
    (b : Build F)
    (name : String)
    (body : List Stmt) :
    (subgraph name body).run scope b =
      (runBody (b.openSubgraph scope name).1
        ((b.openSubgraph scope name).2.update
          (·.pushScope (b.openSubgraph scope name).1))
        body).update (·.popScope) :=
  rfl

/-
  Whatever a body does in the subgraph and in those inside it,
  the name stands for the same graph behind it as before.
-/
theorem openSubgraph_run_subgraph
    (h : b.registry.IsConsistent)
    (hScope : b.registry.HasGraph scope)
    {name : String}
    (hName : name ≠ "")
    (body : List Stmt) :
    ((subgraph name body).run scope b).openSubgraph scope name =
      ((b.openSubgraph scope name).1,
        (subgraph name body).run scope b) := by
  let g : GraphId := (b.openSubgraph scope name).1
  let opened : Build F := (b.openSubgraph scope name).2
  rcases Build.openSubgraph_steps h hScope name with ⟨hOpen, hg⟩
  have hPush :
      Steps opened.registry
        (opened.update (·.pushScope g)).registry :=
    .single (.pushScope _ g hg)
  have hRun :
      Steps opened.registry
        ((subgraph name body).run scope b).registry := by
    have hBody := runBody_steps
      ((hOpen.trans hPush).isConsistent h) hg body
    exact (hPush.trans hBody).tail (.popScope _)
  have hFound :
      opened.registry.findChild? scope name = some g :=
    Build.findChild?_openSubgraph h.isForest hScope hName
  have hKept := hRun.retains.findChild?_eq_some
    (hOpen.isConsistent h).isForest (hOpen.hasGraph hScope) hFound
  exact Build.openSubgraph_of_some hName hKept

/-
  A subgraph that is opened again by its name is continued: the
  second body is run as if it stood behind the first one.
-/
theorem run_subgraph_append
    (factory : F.State)
    (options : Options)
    (hOperates : Operates (.empty factory options) b.registry)
    (hScope : b.registry.HasGraph scope)
    {name : String}
    (hName : name ≠ "")
    (earlier later : List Stmt) :
    (subgraph name later).run scope
        ((subgraph name earlier).run scope b) =
      (subgraph name (earlier ++ later)).run scope b := by
  let g : GraphId := (b.openSubgraph scope name).1
  let opened : Build F := (b.openSubgraph scope name).2
  let inside : Build F := opened.update (·.pushScope g)
  have hAgain := openSubgraph_run_subgraph hOperates.isConsistent
    hScope hName earlier
  calc
    (subgraph name later).run scope
        ((subgraph name earlier).run scope b)
    _ = (runBody g
          (((runBody g inside earlier).update (·.popScope)).update
            (·.pushScope g))
          later).update (·.popScope) := by
        rw [run_subgraph, hAgain, run_subgraph]
    _ = (runBody g (runBody g inside earlier) later).update
          (·.popScope) := by
        rw [pushScope_runBody]
    _ = (runBody g inside (earlier ++ later)).update
          (·.popScope) := by
        rw [runBody_append]
    _ = (subgraph name (earlier ++ later)).run scope b := rfl

/-
  In the middle of a text the first body opens a subgraph of the
  same name inside, and sets a default that the second one sees.
-/
theorem run_subgraph_append_nested :
    let r : Registry .plain :=
      ((empty () {}).load
        "graph \x7b node [shape=box] a \x7d").registry
    let started : List Stmt :=
      [.subgraph "t" [], .subgraph "s"
        [.edge (.node ⟨"a", none⟩)
          [.mk .undirected default (.node ⟨"b", none⟩)] []]]
    let b : Build .plain :=
      runBody ⟨0⟩ (.start (r.pushScope ⟨0⟩)) started
    let earlier : List Stmt :=
      [.defaults .node [⟨"color", .plain "red"⟩],
        .subgraph "s" [.node ⟨"c", none⟩ []]]
    let later : List Stmt :=
      [.edge (.subgraph "s" [.node ⟨"d", none⟩ []])
        [.mk .undirected default (.node ⟨"e", none⟩)] []]
    let ran : Build .plain :=
      (subgraph "s" later).run ⟨0⟩
        ((subgraph "s" earlier).run ⟨0⟩ b)
    ran = (subgraph "s" (earlier ++ later)).run ⟨0⟩ b ∧
      ran.registry.graphs.size = 4 ∧
      (ran.registry.graph ⟨0⟩).children = [⟨1⟩, ⟨2⟩] ∧
      (ran.registry.graph ⟨2⟩).children = [⟨3⟩] ∧
      (ran.registry.graph ⟨3⟩).members = [⟨2⟩, ⟨3⟩] ∧
      (ran.registry.graph ⟨2⟩).edges = [⟨0⟩, ⟨1⟩, ⟨2⟩] := by
  intro r started b earlier later ran
  have hGraph : r.HasGraph ⟨0⟩ := by
    decide +kernel
  have hStart :
      Operates (empty () {} : Registry .plain) (r.pushScope ⟨0⟩) :=
    .step (.pushScope r ⟨0⟩ hGraph) (.load _ .none)
  have hOperates :
      Operates (empty () {} : Registry .plain) b.registry :=
    hStart.runBody (b := .start (r.pushScope ⟨0⟩)) hGraph started
  have hScope : b.registry.HasGraph ⟨0⟩ := by
    decide +kernel
  refine ⟨run_subgraph_append (F := .plain) () {} hOperates hScope
    (by decide) earlier later, ?_⟩
  decide +kernel

end Stmt

end DotLang
