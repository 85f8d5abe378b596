import DotLang.Proofs.Registry.Sound

/-
  This file states the rules of scope as they are seen from
  outside, in terms of ancestors, and proves that they hold after
  each statement of all texts that are read.

  Key definitions include:
    * `Registry.IsAncestor`
    * `Registry.KeepsScopes`

  Key theorems include:
    * `Registry.IsForest.mem_lineage_iff`
    * `Registry.IsBuilt.keepsScopes`
    * `Chronicle.keepsScopes_of_mem_passed`
-/

------------------------------------------------------------
-- Ancestors
------------------------------------------------------------

namespace DotLang

namespace Registry

variable {F : Factory} {r : Registry F} {f g h : GraphId}

/- A graph is met on the way up from another one. -/
def IsAncestor (r : Registry F) : GraphId → GraphId → Prop :=
  Relation.TransGen fun g c => (r.graph c).parent = some g

theorem IsAncestor.hasGraph
    (h : r.IsAncestor f g) :
    r.HasGraph g := by
  rcases Relation.TransGen.tail'_iff.mp h with ⟨_, -, hParent⟩
  exact hasGraph_of_parent hParent

/- The lineage of a graph are the graph and its ancestors. -/
theorem IsForest.mem_lineage_iff
    (hForest : r.IsForest)
    (hg : r.HasGraph g) :
    f ∈ r.lineage g ↔ f = g ∨ r.IsAncestor f g := by
  induction g, hg using hForest.ascending with
  | step g hg ih =>
      cases hParent : (r.graph g).parent with
      | none =>
          rw [lineage_of_root hg hParent, List.mem_singleton]
          refine ⟨.inl, ?_⟩
          rintro (hEq | hAbove)
          · exact hEq
          · rcases Relation.TransGen.tail'_iff.mp hAbove with
              ⟨_, -, hSome⟩
            rw [hParent] at hSome
            cases hSome
      | some parent =>
          rw [hForest.lineage_of_parent hParent, List.mem_cons,
            ih parent hParent]
          apply or_congr_right
          constructor
          · rintro (rfl | hAbove)
            · exact .single hParent
            · exact .tail hAbove hParent
          · intro hAbove
            rcases Relation.TransGen.tail'_iff.mp hAbove with
              ⟨p, hPath, hSome⟩
            rw [hParent, Option.some.injEq] at hSome
            subst hSome
            rcases Relation.reflTransGen_iff_eq_or_transGen.mp
              hPath with hEq | hPath
            · exact .inl hEq.symm
            · exact .inr hPath

theorem IsForest.areNested_iff
    (hForest : r.IsForest)
    (hf : r.HasGraph f)
    (hg : r.HasGraph g) :
    r.AreNested f g ↔
      f = g ∨ r.IsAncestor f g ∨ r.IsAncestor g f := by
  rw [AreNested, hForest.mem_lineage_iff hg,
    hForest.mem_lineage_iff hf]
  constructor
  · rintro ((hEq | hAbove) | hEq | hBelow)
    · exact .inl hEq
    · exact .inr (.inl hAbove)
    · exact .inl hEq.symm
    · exact .inr (.inr hBelow)
  · rintro (hEq | hAbove | hBelow)
    · exact .inl (.inl hEq)
    · exact .inl (.inr hAbove)
    · exact .inr (.inr hBelow)

/- Every graph is inside a top level graph, or is one. -/
theorem IsForest.exists_root
    (hForest : r.IsForest)
    (hg : r.HasGraph g) :
    ∃ root ∈ r.roots, root ∈ r.lineage g := by
  induction g, hg using hForest.ascending with
  | step g hg ih =>
      cases hParent : (r.graph g).parent with
      | none =>
          exact ⟨g, hForest.mem_roots.mpr ⟨hg, hParent⟩,
            hForest.mem_lineage_self hg⟩
      | some parent =>
          rcases ih parent hParent with ⟨root, hRoot, hMem⟩
          rw [hForest.lineage_of_parent hParent]
          exact ⟨root, hRoot, List.mem_cons_of_mem _ hMem⟩

------------------------------------------------------------
-- Rules of Scope
------------------------------------------------------------

/-
  What holds for the nodes, the edges and the subgraphs in a
  registry that was built from texts.
-/
structure KeepsScopes (r : Registry F) : Prop where
  unique :
    ∀ {m n : NodeId},
      r.HasNode m →
        r.HasNode n →
        m ≠ n →
        (r.node m).name = (r.node n).name →
        (r.node m).owner ≠ (r.node n).owner ∧
          ¬ r.IsAncestor (r.node m).owner (r.node n).owner ∧
          ¬ r.IsAncestor (r.node n).owner (r.node m).owner
  ownMember :
    ∀ {n : NodeId},
      r.HasNode n → n ∈ (r.graph (r.node n).owner).members
  owner :
    ∀ {g : GraphId} {n : NodeId},
      n ∈ (r.graph g).members →
        (r.node n).owner = g ∨
          r.IsAncestor (r.node n).owner g ∨
          r.IsAncestor g (r.node n).owner
  ends :
    ∀ {e : EdgeId},
      r.HasEdge e →
        (r.edge e).tail ∈ (r.graph (r.edge e).owner).members ∧
          (r.edge e).head ∈ (r.graph (r.edge e).owner).members
  children :
    ∀ g : GraphId,
      (((r.graph g).children.map fun c => (r.graph c).name).filter
        fun name => name ≠ "").Nodup
  root :
    ∀ {g : GraphId},
      r.HasGraph g →
        ∃ root ∈ r.roots, root = g ∨ r.IsAncestor root g
  flags :
    ∀ {root g : GraphId},
      root ∈ r.roots →
        r.IsAncestor root g →
        (r.graph g).directed = (r.graph root).directed ∧
          (r.graph g).strict = (r.graph root).strict

/- Children with distinct names have a list of distinct names. -/
theorem IsUniform.nodup_names
    (hUniform : r.IsUniform)
    (hForest : r.IsForest)
    (hg : r.HasGraph g) :
    (((r.graph g).children.map fun c => (r.graph c).name).filter
      fun name => name ≠ "").Nodup := by
  rw [List.filter_map]
  have hNodup := (hForest.nodup_children hg).filter
    ((fun name => name ≠ "") ∘ fun c => (r.graph c).name)
  apply hNodup.map_on
  intro c hc d hd hEq
  rcases List.mem_filter.mp hc with ⟨hc, hName⟩
  have hParentC := (hForest.mem_children hg).mp hc
  have hParentD :=
    (hForest.mem_children hg).mp (List.mem_filter.mp hd).1
  exact hUniform.distinct hParentC hParentD hEq (by simpa using hName)

theorem IsBuilt.keepsScopes
    {IsGood : Value → Prop}
    (hBuilt : r.IsBuilt IsGood) :
    r.KeepsScopes := by
  have hForest := hBuilt.isForest
  have hScoped := hBuilt.isScoped
  constructor
  · intro m n hm hn hNe hName
    have hApart := mt (hScoped.unique hm hn hName) hNe
    rw [hForest.areNested_iff (hScoped.hasOwner hm)
      (hScoped.hasOwner hn), not_or, not_or] at hApart
    exact hApart
  · intro n hn
    exact hScoped.mem_members_owner hn
  · intro g n hMem
    exact (hForest.areNested_iff
      (hScoped.hasOwner (hScoped.hasNode hMem))
      (hasGraph_of_mem_members hMem)).mp (hScoped.nested hMem)
  · intro e he
    exact ⟨hBuilt.isLinked.tail_mem he, hBuilt.isLinked.head_mem he⟩
  · intro g
    by_cases hg : r.HasGraph g
    · exact hBuilt.isUniform.nodup_names hForest hg
    · rw [graph_of_not_hasGraph hg]
      exact List.nodup_nil
  · intro g hg
    rcases hForest.exists_root hg with ⟨root, hRoot, hMem⟩
    exact ⟨root, hRoot, (hForest.mem_lineage_iff hg).mp hMem⟩
  · intro root g hRoot hAbove
    have hg := hAbove.hasGraph
    rcases hBuilt.isUniform.eq_of_mem_lineage hForest hg
      ((hForest.mem_lineage_iff hg).mpr (.inr hAbove)) with
      ⟨hDirected, hStrict⟩
    exact ⟨hDirected.symm, hStrict.symm⟩

end Registry

------------------------------------------------------------
-- Texts
------------------------------------------------------------

namespace Chronicle

open Registry

/-
  Whatever texts are read one after the other, the rules of scope
  hold after each statement in them, and in the end.
-/
theorem keepsScopes_of_mem_passed
    {F : Factory}
    (factory : F.State)
    (options : Options)
    (texts : List String) :
    let r : Registry F := .empty factory options
    let c := ofTexts r texts
    c.build.registry =
        texts.foldl (fun r text => (r.load text).registry) r ∧
      c.build.registry.KeepsScopes ∧
      ∀ m ∈ c.passed, m.registry.KeepsScopes := by
  intro r c
  have hSound := isSound_ofTexts factory options texts
  refine ⟨registry_ofTexts r texts, hSound.isBuilt.keepsScopes, ?_⟩
  intro m hMem
  exact (hSound.passed m hMem).1.keepsScopes

/- An edge of the inner graph ends at a node of the outer one. -/
theorem keepsScopes_nested :
    let c :=
      ofTexts (.empty () {} : Registry .plain)
        ["graph g \x7b a subgraph s \x7b a -- b \x7d b \x7d"]
    ∃ m ∈ c.passed,
      m.registry.KeepsScopes ∧
        (m.registry.graph ⟨0⟩).members = [⟨0⟩, ⟨1⟩] ∧
        (m.registry.node ⟨1⟩).owner = ⟨1⟩ := by
  intro c
  rcases keepsScopes_of_mem_passed (F := .plain) () {}
    ["graph g \x7b a subgraph s \x7b a -- b \x7d b \x7d"] with
    ⟨-, -, hKeeps⟩
  have hLast : 3 < c.passed.length := by
    decide +kernel
  exact ⟨c.passed.get ⟨3, hLast⟩, List.get_mem _ _,
    hKeeps _ (List.get_mem _ _), by decide +kernel +revert⟩

end Chronicle

end DotLang
