import DotLang.Proofs.Registry.Views
import DotLang.Registry.Query
import Mathlib.Data.List.Nodup
import Mathlib.Data.List.Perm.Subperm

/-
  This file proves what the walks through the graphs of a
  registry visit, for registries whose graphs form a forest.

  The walks run with a bound.  In a forest the bound is never
  met, so that each walk satisfies a plain recursion.

  Key definitions include:
    * `Registry.IsForest`

  Key theorems include:
    * `Registry.IsForest.lineage_of_parent`
    * `Registry.IsForest.extent_eq`
    * `Registry.IsForest.mem_extent`
    * `Registry.IsForest.nodup_extent`
-/

------------------------------------------------------------
-- Forests
------------------------------------------------------------

namespace DotLang

namespace Registry

variable {F : Factory} {r : Registry F}

/-
  Graphs are made after their parents.  The children of a graph
  and the top level graphs are listed as they were made.
-/
structure IsForest (r : Registry F) : Prop where
  parent_lt :
    ∀ {g parent : GraphId},
      (r.graph g).parent = some parent → parent.index < g.index
  children_eq :
    ∀ {g : GraphId},
      r.HasGraph g →
        (r.graph g).children =
          r.graphIds.filter fun h => (r.graph h).parent = some g
  roots_eq :
    r.roots = r.graphIds.filter fun h => (r.graph h).parent = none

/- A handle that is not in use has no parent. -/
theorem hasGraph_of_parent
    {g parent : GraphId}
    (h : (r.graph g).parent = some parent) :
    r.HasGraph g := by
  by_cases hg : r.HasGraph g
  · exact hg
  · rw [graph_of_not_hasGraph hg] at h
    cases h

namespace IsForest

variable {f g h parent c : GraphId}

theorem hasGraph_parent
    (hForest : r.IsForest)
    (hParent : (r.graph g).parent = some parent) :
    r.HasGraph parent := by
  have hLt := hForest.parent_lt hParent
  have hg := hasGraph_of_parent hParent
  unfold HasGraph at *
  omega

theorem mem_children
    (hForest : r.IsForest)
    (hg : r.HasGraph g) :
    c ∈ (r.graph g).children ↔ (r.graph c).parent = some g := by
  rw [hForest.children_eq hg, List.mem_filter, mem_graphIds]
  constructor
  · rintro ⟨-, hParent⟩
    simpa using hParent
  · intro hParent
    exact ⟨hasGraph_of_parent hParent, by simpa using hParent⟩

theorem nodup_children
    (hForest : r.IsForest)
    (hg : r.HasGraph g) :
    (r.graph g).children.Nodup := by
  rw [hForest.children_eq hg]
  exact (nodup_graphIds r).filter _

theorem mem_roots
    (hForest : r.IsForest) :
    g ∈ r.roots ↔ r.HasGraph g ∧ (r.graph g).parent = none := by
  rw [hForest.roots_eq, List.mem_filter, mem_graphIds]
  simp

------------------------------------------------------------
-- Inductions
------------------------------------------------------------

/- What parents hand on to their children holds everywhere. -/
theorem ascending
    {motive : ∀ g, r.HasGraph g → Prop}
    (hForest : r.IsForest)
    (step :
      ∀ (g : GraphId) (hg : r.HasGraph g),
        (∀ (parent : GraphId)
            (hParent : (r.graph g).parent = some parent),
          motive parent (hForest.hasGraph_parent hParent)) →
        motive g hg)
    (g : GraphId)
    (hg : r.HasGraph g) :
    motive g hg := by
  suffices hAll :
      ∀ i (g : GraphId) (hg : r.HasGraph g),
        g.index = i → motive g hg from hAll _ g hg rfl
  intro i
  induction i using Nat.strongRecOn with
  | ind i ih =>
      intro g hg hIndex
      apply step g hg
      intro parent hParent
      have hLt := hForest.parent_lt hParent
      exact ih parent.index (by omega) parent _ rfl

/- What children hand on to their parents holds everywhere. -/
theorem descending
    {motive : ∀ g, r.HasGraph g → Prop}
    (hForest : r.IsForest)
    (step :
      ∀ (g : GraphId) (hg : r.HasGraph g),
        (∀ (c : GraphId)
            (hParent : (r.graph c).parent = some g),
          motive c (hasGraph_of_parent hParent)) →
        motive g hg)
    (g : GraphId)
    (hg : r.HasGraph g) :
    motive g hg := by
  suffices hAll :
      ∀ k (g : GraphId) (hg : r.HasGraph g),
        r.graphs.size ≤ g.index + k → motive g hg from
    hAll r.graphs.size g hg (by omega)
  intro k
  induction k with
  | zero =>
      intro g hg hIndex
      unfold HasGraph at hg
      omega
  | succ k ih =>
      intro g hg hIndex
      apply step g hg
      intro c hParent
      have hLt := hForest.parent_lt hParent
      exact ih c _ (by omega)

------------------------------------------------------------
-- Graphs Around
------------------------------------------------------------

/- A bound beyond the index of a graph makes no difference. -/
theorem lineageWithin_stable
    (hForest : r.IsForest)
    (hg : r.HasGraph g) :
    ∀ k k',
      g.index < k → g.index < k' →
        r.lineageWithin k g = r.lineageWithin k' g := by
  induction g, hg using hForest.ascending with
  | step g hg ih =>
      intro k k' hk hk'
      rcases k with _ | k
      · omega
      rcases k' with _ | k'
      · omega
      cases hParent : (r.graph g).parent with
      | none => simp [lineageWithin, hParent]
      | some parent =>
          have hLt := hForest.parent_lt hParent
          simp [lineageWithin, hParent,
            ih parent hParent k k' (by omega) (by omega)]

theorem lineage_of_parent
    (hForest : r.IsForest)
    (hParent : (r.graph g).parent = some parent) :
    r.lineage g = g :: r.lineage parent := by
  have hg := hasGraph_of_parent hParent
  have hLt := hForest.parent_lt hParent
  have hSucc := hForest.lineageWithin_stable hg
    r.graphs.size (r.graphs.size + 1) hg (Nat.lt_succ_of_lt hg)
  rw [lineage, hSucc, lineageWithin, hParent, lineage]

theorem lineage_of_root
    (hg : r.HasGraph g)
    (hParent : (r.graph g).parent = none) :
    r.lineage g = [g] := by
  unfold HasGraph at hg
  obtain ⟨k, hk⟩ : ∃ k, r.graphs.size = k + 1 :=
    ⟨r.graphs.size - 1, by omega⟩
  rw [lineage, hk, lineageWithin, hParent]

theorem lineage_eq_cons
    (hForest : r.IsForest)
    (hg : r.HasGraph g) :
    r.lineage g = g :: (r.lineage g).tail := by
  cases hParent : (r.graph g).parent with
  | none => simp [lineage_of_root hg hParent]
  | some parent => simp [hForest.lineage_of_parent hParent]

theorem mem_lineage_self
    (hForest : r.IsForest)
    (hg : r.HasGraph g) :
    g ∈ r.lineage g := by
  rw [hForest.lineage_eq_cons hg]
  exact List.mem_cons_self

theorem lineage_subset
    (hForest : r.IsForest)
    (hg : r.HasGraph g)
    (hMem : f ∈ r.lineage g) :
    r.lineage f ⊆ r.lineage g := by
  induction g, hg using hForest.ascending with
  | step g hg ih =>
      cases hParent : (r.graph g).parent with
      | none =>
          rw [lineage_of_root hg hParent, List.mem_singleton] at hMem
          subst hMem
          exact List.Subset.refl _
      | some parent =>
          rw [hForest.lineage_of_parent hParent] at hMem ⊢
          rcases List.mem_cons.mp hMem with rfl | hMem
          · rw [hForest.lineage_of_parent hParent]
            exact List.Subset.refl _
          · exact List.subset_cons_of_subset _
              (ih parent hParent hMem)

theorem index_le_of_mem_lineage
    (hForest : r.IsForest)
    (hg : r.HasGraph g)
    (hMem : f ∈ r.lineage g) :
    f.index ≤ g.index := by
  induction g, hg using hForest.ascending with
  | step g hg ih =>
      cases hParent : (r.graph g).parent with
      | none =>
          rw [lineage_of_root hg hParent, List.mem_singleton] at hMem
          exact Nat.le_of_eq (congrArg GraphId.index hMem)
      | some parent =>
          rw [hForest.lineage_of_parent hParent] at hMem
          rcases List.mem_cons.mp hMem with rfl | hMem
          · exact Nat.le_refl _
          · have hLe := ih parent hParent hMem
            have hLt := hForest.parent_lt hParent
            omega

theorem hasGraph_of_mem_lineage
    (hForest : r.IsForest)
    (hg : r.HasGraph g)
    (hMem : f ∈ r.lineage g) :
    r.HasGraph f := by
  have hLe := hForest.index_le_of_mem_lineage hg hMem
  unfold HasGraph at *
  omega

theorem lineage_antisymm
    (hForest : r.IsForest)
    (hg : r.HasGraph g)
    (hOut : f ∈ r.lineage g)
    (hIn : g ∈ r.lineage f) :
    f = g := by
  have hf := hForest.hasGraph_of_mem_lineage hg hOut
  have hLe := hForest.index_le_of_mem_lineage hg hOut
  have hGe := hForest.index_le_of_mem_lineage hf hIn
  rcases f with ⟨i⟩
  rcases g with ⟨j⟩
  exact congrArg GraphId.mk (Nat.le_antisymm hLe hGe)

/- Of two graphs around a third, one is around the other. -/
theorem lineage_comparable
    (hForest : r.IsForest)
    (hh : r.HasGraph h)
    (hf : f ∈ r.lineage h)
    (hg : g ∈ r.lineage h) :
    f ∈ r.lineage g ∨ g ∈ r.lineage f := by
  induction h, hh using hForest.ascending with
  | step h hh ih =>
      cases hParent : (r.graph h).parent with
      | none =>
          rw [lineage_of_root hh hParent, List.mem_singleton] at hf hg
          subst hf hg
          exact .inl (hForest.mem_lineage_self hh)
      | some parent =>
          have hUp := hForest.lineage_of_parent hParent
          rw [hUp] at hf hg
          rcases List.mem_cons.mp hf with rfl | hOuterF
          · right
            rwa [hUp]
          · rcases List.mem_cons.mp hg with rfl | hOuterG
            · left
              rw [hUp]
              exact List.mem_cons_of_mem _ hOuterF
            · exact ih parent hParent hOuterF hOuterG

end IsForest

------------------------------------------------------------
-- Graphs Inside
------------------------------------------------------------

/- A graph and those inside it, down to a depth. -/
def preorderWithin
    (r : Registry F) : Nat → GraphId → List GraphId
| 0, _ => []
| depth + 1, g =>
    g :: (r.graph g).children.flatMap (r.preorderWithin depth)

namespace IsForest

variable {f g h parent c : GraphId}

theorem preorderWithin_stable
    (hForest : r.IsForest)
    (hg : r.HasGraph g) :
    ∀ k k',
      r.graphs.size ≤ g.index + k →
        r.graphs.size ≤ g.index + k' →
        r.preorderWithin k g = r.preorderWithin k' g := by
  induction g, hg using hForest.descending with
  | step g hg ih =>
      have hLt : g.index < r.graphs.size := hg
      intro k k' hk hk'
      rcases k with _ | k
      · omega
      rcases k' with _ | k'
      · omega
      refine congrArg (g :: ·) (List.flatMap_congr ?_)
      intro c hc
      have hParent := (hForest.mem_children hg).mp hc
      have hIndex := hForest.parent_lt hParent
      exact ih c hParent k k' (by omega) (by omega)

theorem preorder_eq
    (hForest : r.IsForest)
    (hg : r.HasGraph g) :
    r.preorderWithin r.graphs.size g =
      g :: (r.graph g).children.flatMap
        (r.preorderWithin r.graphs.size) := by
  rw [hForest.preorderWithin_stable hg r.graphs.size
    (r.graphs.size + 1) (by omega) (by omega), preorderWithin]

/- The walk is cut off where its bound is met. -/
theorem walkWithin_eq_take
    (hForest : r.IsForest)
    (k : Nat) :
    ∀ pending : List GraphId,
      (∀ g ∈ pending, r.HasGraph g) →
        r.walkWithin k pending =
          (pending.flatMap
            (r.preorderWithin r.graphs.size)).take k := by
  induction k with
  | zero => simp [walkWithin]
  | succ k ih =>
      intro pending hPending
      rcases pending with _ | ⟨g, pending⟩
      · simp [walkWithin]
      have hg := hPending g (by simp)
      have hAll :
          ∀ c ∈ (r.graph g).children ++ pending, r.HasGraph c := by
        intro c hc
        rcases List.mem_append.mp hc with hc | hc
        · exact hasGraph_of_parent ((hForest.mem_children hg).mp hc)
        · exact hPending c (by simp [hc])
      rw [walkWithin, ih _ hAll, List.flatMap_cons,
        hForest.preorder_eq hg]
      simp

theorem mem_lineage_of_mem_preorder
    (hForest : r.IsForest)
    (hg : r.HasGraph g)
    (hMem : h ∈ r.preorderWithin r.graphs.size g) :
    r.HasGraph h ∧ g ∈ r.lineage h := by
  induction g, hg using hForest.descending with
  | step g hg ih =>
      rw [hForest.preorder_eq hg] at hMem
      rcases List.mem_cons.mp hMem with rfl | hMem
      · exact ⟨hg, hForest.mem_lineage_self hg⟩
      · rcases List.mem_flatMap.mp hMem with ⟨c, hc, hMem⟩
        have hParent := (hForest.mem_children hg).mp hc
        rcases ih c hParent hMem with ⟨hh, hIn⟩
        refine ⟨hh, hForest.lineage_subset hh hIn ?_⟩
        rw [hForest.lineage_of_parent hParent]
        exact List.mem_cons_of_mem _ (hForest.mem_lineage_self hg)

theorem child_mem_preorder
    (hForest : r.IsForest)
    (hg : r.HasGraph g)
    (hMem : h ∈ r.preorderWithin r.graphs.size g)
    (hParent : (r.graph c).parent = some h) :
    c ∈ r.preorderWithin r.graphs.size g := by
  induction g, hg using hForest.descending with
  | step g hg ih =>
      rw [hForest.preorder_eq hg] at hMem ⊢
      apply List.mem_cons_of_mem
      apply List.mem_flatMap.mpr
      rcases List.mem_cons.mp hMem with rfl | hMem
      · refine ⟨c, (hForest.mem_children hg).mpr hParent, ?_⟩
        rw [hForest.preorder_eq (hasGraph_of_parent hParent)]
        exact List.mem_cons_self
      · rcases List.mem_flatMap.mp hMem with ⟨d, hd, hMem⟩
        exact ⟨d, hd, ih d ((hForest.mem_children hg).mp hd) hMem⟩

theorem mem_preorder
    (hForest : r.IsForest)
    (hg : r.HasGraph g)
    (hh : r.HasGraph h) :
    h ∈ r.preorderWithin r.graphs.size g ↔ g ∈ r.lineage h := by
  constructor
  · intro hMem
    exact (hForest.mem_lineage_of_mem_preorder hg hMem).2
  · intro hMem
    induction h, hh using hForest.ascending with
    | step h hh ih =>
        have hSelf :
            g = h → h ∈ r.preorderWithin r.graphs.size g := by
          rintro rfl
          rw [hForest.preorder_eq hg]
          exact List.mem_cons_self
        cases hParent : (r.graph h).parent with
        | none =>
            rw [lineage_of_root hh hParent] at hMem
            exact hSelf (List.mem_singleton.mp hMem)
        | some parent =>
            rw [hForest.lineage_of_parent hParent] at hMem
            rcases List.mem_cons.mp hMem with hEq | hMem
            · exact hSelf hEq
            · exact hForest.child_mem_preorder hg
                (ih parent hParent hMem) hParent

theorem nodup_preorder
    (hForest : r.IsForest)
    (hg : r.HasGraph g) :
    (r.preorderWithin r.graphs.size g).Nodup := by
  induction g, hg using hForest.descending with
  | step g hg ih =>
      rw [hForest.preorder_eq hg]
      refine List.nodup_cons.mpr ⟨?_, List.nodup_flatMap.mpr ⟨?_, ?_⟩⟩
      · intro hMem
        rcases List.mem_flatMap.mp hMem with ⟨c, hc, hMem⟩
        have hParent := (hForest.mem_children hg).mp hc
        have hIn := (hForest.mem_lineage_of_mem_preorder
          (hasGraph_of_parent hParent) hMem).2
        have hLe := hForest.index_le_of_mem_lineage hg hIn
        have hLt := hForest.parent_lt hParent
        omega
      · intro c hc
        exact ih c ((hForest.mem_children hg).mp hc)
      · refine (hForest.nodup_children hg).imp_of_mem ?_
        intro c d hc hd hNe h hhc hhd
        have hParentC := (hForest.mem_children hg).mp hc
        have hParentD := (hForest.mem_children hg).mp hd
        rcases hForest.mem_lineage_of_mem_preorder
          (hasGraph_of_parent hParentC) hhc with ⟨hh, hInC⟩
        have hInD := (hForest.mem_lineage_of_mem_preorder
          (hasGraph_of_parent hParentD) hhd).2
        -- two children of one graph are not inside each other
        have hApart :
            ∀ {c d : GraphId},
              (r.graph c).parent = some g →
                (r.graph d).parent = some g →
                c ∈ r.lineage d → c = d := by
          intro c d hC hD hMem
          rw [hForest.lineage_of_parent hD] at hMem
          rcases List.mem_cons.mp hMem with hEq | hMem
          · exact hEq
          · have hLe := hForest.index_le_of_mem_lineage hg hMem
            have hLt := hForest.parent_lt hC
            omega
        rcases hForest.lineage_comparable hh hInC hInD with hIn | hIn
        · exact hNe (hApart hParentC hParentD hIn)
        · exact hNe (hApart hParentD hParentC hIn).symm

/-
  There are no more graphs inside a graph than in all, so that a
  walk with room for all of them is not cut off.
-/
theorem walkWithin_children
    (hForest : r.IsForest)
    (hg : r.HasGraph g)
    {k : Nat}
    (hk : r.graphs.size ≤ k) :
    r.walkWithin k (r.graph g).children =
      (r.graph g).children.flatMap
        (r.preorderWithin r.graphs.size) := by
  have hNodup := hForest.nodup_preorder hg
  have hSubset :
      r.preorderWithin r.graphs.size g ⊆ r.graphIds := by
    intro h hMem
    exact mem_graphIds.mpr
      (hForest.mem_lineage_of_mem_preorder hg hMem).1
  have hLength := (hNodup.subperm hSubset).length_le
  rw [hForest.preorder_eq hg] at hLength
  simp only [graphIds, List.length_cons, List.length_map,
    List.length_range] at hLength
  rw [hForest.walkWithin_eq_take, List.take_of_length_le]
  · omega
  · intro c hc
    exact hasGraph_of_parent ((hForest.mem_children hg).mp hc)

theorem subgraphs_eq
    (hForest : r.IsForest)
    (hg : r.HasGraph g) :
    r.subgraphs g =
      (r.graph g).children.flatMap
        (r.preorderWithin r.graphs.size) :=
  hForest.walkWithin_children hg (Nat.le_refl _)

theorem extent_eq_preorder
    (hForest : r.IsForest)
    (hg : r.HasGraph g) :
    r.extent g = r.preorderWithin r.graphs.size g := by
  rw [extent, hForest.subgraphs_eq hg, hForest.preorder_eq hg]

/- The extent of a graph goes through those of its children. -/
theorem subgraphs_eq_flatMap_extent
    (hForest : r.IsForest)
    (hg : r.HasGraph g) :
    r.subgraphs g = (r.graph g).children.flatMap r.extent := by
  rw [hForest.subgraphs_eq hg]
  apply List.flatMap_congr
  intro c hc
  exact (hForest.extent_eq_preorder
    (hasGraph_of_parent ((hForest.mem_children hg).mp hc))).symm

theorem extent_eq
    (hForest : r.IsForest)
    (hg : r.HasGraph g) :
    r.extent g = g :: (r.graph g).children.flatMap r.extent := by
  rw [extent, hForest.subgraphs_eq_flatMap_extent hg]

/- A graph is inside another one exactly if that is around it. -/
theorem mem_extent
    (hForest : r.IsForest)
    (hg : r.HasGraph g) :
    h ∈ r.extent g ↔ r.HasGraph h ∧ g ∈ r.lineage h := by
  rw [hForest.extent_eq_preorder hg]
  constructor
  · exact hForest.mem_lineage_of_mem_preorder hg
  · rintro ⟨hh, hMem⟩
    exact (hForest.mem_preorder hg hh).mpr hMem

theorem mem_extent_of_parent
    (hForest : r.IsForest)
    (hParent : (r.graph c).parent = some g) :
    c ∈ r.extent g := by
  have hg := hForest.hasGraph_parent hParent
  refine (hForest.mem_extent hg).mpr ⟨hasGraph_of_parent hParent, ?_⟩
  rw [hForest.lineage_of_parent hParent]
  exact List.mem_cons_of_mem _ (hForest.mem_lineage_self hg)

theorem not_mem_extent_of_parent
    (hForest : r.IsForest)
    (hParent : (r.graph c).parent = some g) :
    g ∉ r.extent c := by
  intro hMem
  have hc := hasGraph_of_parent hParent
  rcases (hForest.mem_extent hc).mp hMem with ⟨hg, hIn⟩
  have hLe := hForest.index_le_of_mem_lineage hg hIn
  have hLt := hForest.parent_lt hParent
  omega

theorem nodup_extent
    (hForest : r.IsForest)
    (hg : r.HasGraph g) :
    (r.extent g).Nodup := by
  rw [hForest.extent_eq_preorder hg]
  exact hForest.nodup_preorder hg

theorem extent_subset
    (hForest : r.IsForest)
    (hg : r.HasGraph g)
    (hMem : h ∈ r.extent g) :
    r.extent h ⊆ r.extent g := by
  rcases (hForest.mem_extent hg).mp hMem with ⟨hh, hIn⟩
  intro f hf
  rcases (hForest.mem_extent hh).mp hf with ⟨hf, hIn'⟩
  exact (hForest.mem_extent hg).mpr
    ⟨hf, hForest.lineage_subset hf hIn' hIn⟩

end IsForest

end Registry

end DotLang
