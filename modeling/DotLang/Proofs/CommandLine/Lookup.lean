import DotLang.CommandLine.Run
import DotLang.Proofs.Registry.Shadowing
import DotLang.Proofs.Registry.StaysInside

/-
  This file proves that the command line and the statements of a
  text mean the same nodes.  The names of a route are looked up
  among all nodes of the first graph in their order; a statement
  looks them up graph by graph.

  Key theorems include:
    * `Registry.localNode?_eq_find?`
    * `Registry.resolveNode?_root`
    * `Registry.exists_roots_eq_cons`
    * `Invocation.findByName?_eq_resolveNode?`
-/

------------------------------------------------------------
-- Names in One Graph
------------------------------------------------------------

namespace DotLang

namespace Registry

variable {F : Factory} {r : Registry F} {g : GraphId}

/- As a graph owns no name twice, the first node is the last. -/
theorem localNode?_eq_find?
    (hForest : r.IsForest)
    (hScoped : r.IsScoped)
    (g : GraphId)
    (name : String) :
    r.localNode? g name =
      (r.graph g).nodes.find? fun n => (r.node n).name = name := by
  cases hFind :
      (r.graph g).nodes.find? fun n => (r.node n).name = name with
  | none =>
      apply hScoped.isIndexed.localNode?_eq_none_iff.mpr
      intro n hn
      simpa using List.find?_eq_none.mp hFind n hn
  | some n =>
      have hName : (r.node n).name = name := by
        simpa using List.find?_some hFind
      rcases hScoped.mem_nodes.mp
        (List.mem_of_find?_eq_some hFind) with ⟨hn, rfl⟩
      rw [← hName]
      exact localNode?_self hForest hScoped hn

------------------------------------------------------------
-- Names in a Top Level Graph
------------------------------------------------------------

/- Around a top level graph there is nothing to ask. -/
theorem resolveNode?_root
    (hForest : r.IsForest)
    (hRoot : g ∈ r.roots)
    (name : String) :
    r.resolveNode? g name =
      (r.extent g).findSome? fun h => r.localNode? h name := by
  rcases hForest.mem_roots.mp hRoot with ⟨hg, hTop⟩
  rw [resolveNode?_eq, IsForest.lineage_of_root hg hTop]
  rfl

/- A text that is read makes a graph. -/
theorem exists_roots_eq_cons
    (factory : F.State)
    (options : Options)
    (source : String)
    (hOk :
      ((empty factory options : Registry F).load source).outcome =
        .ok ()) :
    ∃ g others,
      ((empty factory options : Registry F).load
        source).registry.roots = g :: others := by
  apply List.exists_cons_of_ne_nil
  apply List.ne_nil_of_length_pos
  cases hFile : Parser.file (.ofText source.toList options) with
  | error d p => simp [load, empty, hFile] at hOk
  | ok decls p =>
      have hDecls := List.length_pos_of_ne_nil
        (Parser.ne_nil_of_file_eq_ok hFile)
      have hDiagnose := Steps.single
        (Step.diagnose (empty factory options : Registry F)
          p.diagnostics)
      have hEmpty := isConsistent_empty factory options (F := F)
      have hRoots := congrArg List.length
        (directed_roots_runGraphs (hDiagnose.isConsistent hEmpty)
          decls)
      rw [(load_of_ok (r := empty factory options) hFile).2]
      simp only [List.length_map, List.length_append] at hRoots
      omega

end Registry

------------------------------------------------------------
-- Names on the Command Line
------------------------------------------------------------

open Registry

namespace Invocation

variable {F : Factory} {r : Registry F} {g : GraphId}

theorem findByName?_eq_findSome?
    (hForest : r.IsForest)
    (hScoped : r.IsScoped)
    (g : GraphId)
    (name : String) :
    findByName? r g name =
      (r.extent g).findSome? fun h => r.localNode? h name := by
  rw [findByName?, allNodes, List.find?_flatMap]
  simp only [localNode?_eq_find? hForest hScoped]

/-
  Whatever text is read, and whichever names its subgraphs share,
  the command line looks a name up like the text of the first
  graph does: both find the same node, or both find none.
-/
theorem findByName?_eq_resolveNode?
    (factory : F.State)
    (options : Options)
    (source : String)
    (hOk :
      ((empty factory options : Registry F).load source).outcome =
        .ok ()) :
    let r : Registry F :=
      ((empty factory options).load source).registry
    ∃ g others,
      r.roots = g :: others ∧
        ∀ name, findByName? r g name = r.resolveNode? g name := by
  intro r
  have hBuilt := isBuilt_load factory options source
  rcases exists_roots_eq_cons factory options source hOk with
    ⟨g, others, hRoots⟩
  have hRoot : g ∈ r.roots := by
    rw [show r.roots = g :: others from hRoots]
    exact List.mem_cons_self
  refine ⟨g, others, hRoots, fun name => ?_⟩
  rw [resolveNode?_root hBuilt.isForest hRoot]
  exact findByName?_eq_findSome? hBuilt.isForest hBuilt.isScoped g
    name

/-
  Two subgraphs own a node of one name.  The node that was made
  later is found, as its graph comes first.
-/
theorem findByName?_twins :
    let source : String :=
      "graph \x7b subgraph s \x7b \x7d subgraph t \x7b x \x7d " ++
        "subgraph s \x7b x y \x7d \x7d"
    let r : Registry .plain := ((empty () {}).load source).registry
    ∃ g others,
      r.roots = g :: others ∧
        (∀ name, findByName? r g name = r.resolveNode? g name) ∧
        g = ⟨0⟩ ∧
        (r.graph ⟨1⟩).nodes = [⟨1⟩, ⟨2⟩] ∧
        (r.graph ⟨2⟩).nodes = [⟨0⟩] ∧
        findByName? r g "x" = some ⟨1⟩ ∧
        findByName? r g "z" = none := by
  intro source r
  rcases findByName?_eq_resolveNode? (F := .plain) () {} source
    (by decide +kernel) with ⟨g, others, hRoots, hAll⟩
  have hFirst : r.roots = [⟨0⟩] := by
    decide +kernel
  rw [hFirst, List.cons.injEq] at hRoots
  rcases hRoots with ⟨rfl, rfl⟩
  refine ⟨⟨0⟩, [], hFirst, hAll, rfl, ?_⟩
  decide +kernel

end Invocation

end DotLang
