import DotLang.Proofs.Route.Search

/-
  This file proves that the search by weight finds a lightest
  walk exactly if there is a walk.

  A walk leaves the nodes that were served through a candidate.
  So it weighs no less than the first candidate in line.

  Key definitions include:
    * `IsLightest`
    * `unfollowed`

  Key theorems include:
    * `IsSearch.le_weightAlong`
    * `IsSearch.settle`
    * `IsSearch.run_spec`
    * `isLightest_lightestAlong`
-/

------------------------------------------------------------
-- Lightest Routes
------------------------------------------------------------

namespace DotLang

/-
  A route between two nodes that is empty if there is no walk,
  and else is a walk without a node that is there twice, and
  weighs at most what any other walk does.
-/
structure IsLightest
    {W : Type}
    (R : NodeId → NodeId → Prop)
    (weigh : List NodeId → W)
    (AtMost : W → W → Prop)
    (source target : NodeId)
    (route : List NodeId) : Prop where
  self : source = target → route = [source]
  eq_nil_iff :
    route = [] ↔ ¬ Relation.ReflTransGen R source target
  isWalk : route ≠ [] → IsWalk R source target route
  nodup : route.Nodup
  atMost :
    route ≠ [] →
      ∀ other,
        IsWalk R source target other →
          AtMost (weigh route) (weigh other)

section Searching

variable {W K : Type} [Scale W] [LinearOrder K]
variable {value : W → K} {IsCost IsWeight : W → Prop}
variable {arcs : List (Arc W)} {source target n : NodeId}
variable {floor : W} {served : List NodeId}
variable {s : WeightSearch W} {c : Candidate W}

namespace IsSearch

------------------------------------------------------------
-- Walks Out of the Served Nodes
------------------------------------------------------------

/-
  A walk to a node that was not served weighs no less than the
  first candidate.
-/
theorem le_weightAlong
    (hScale : IsScale value IsCost IsWeight)
    (hArcs : ∀ arc ∈ arcs, IsWeight arc.weight)
    (h : IsSearch value IsCost arcs source floor [] served s)
    {first : W}
    (hFirst : ∀ c ∈ s.line, value first ≤ value c.cost)
    {other : List NodeId}
    (hWalk : IsWalk (Leads arcs) source n other) :
    (n ∈ served ∧
        ∃ k,
          s.costs.lookup n = some k ∧
            value k ≤ value (weightAlong arcs other)) ∨
      value first ≤ value (weightAlong arcs other) := by
  -- a node that is known at some cost waits, if it was not served
  have hKnown :
      ∀ {n k w},
        s.costs.lookup n = some k →
          value k ≤ w →
            (n ∈ served ∧
                ∃ k, s.costs.lookup n = some k ∧ value k ≤ w) ∨
              value first ≤ w := by
    intro n k w hk hLe
    by_cases hn : n ∈ served
    · exact .inl ⟨hn, k, hk, hLe⟩
    · rcases h.waits hk hn with ⟨c, hc, -, hEq⟩
      exact .inr ((hFirst c hc).trans (hEq.le.trans hLe))
  refine hWalk.induct
    (motive := fun n other =>
      (n ∈ served ∧
          ∃ k,
            s.costs.lookup n = some k ∧
              value k ≤ value (weightAlong arcs other)) ∨
        value first ≤ value (weightAlong arcs other))
    (hKnown h.starts (le_refl _)) ?_
  intro b n other hShorter hStep ih
  have hCost := hScale.isCost_weightAlong hArcs other
  rw [weightAlong, addWeights_concat hShorter.last]
  rcases ih with ⟨hServed, j, hj, hLe⟩ | hLe
  · rcases hScale.exists_add_le hArcs hStep with
      ⟨arc, hArc, rfl, rfl, hLightest⟩
    rcases h.followed arc hArc hServed List.not_mem_nil with
      ⟨i, k, hi, hk, hFollowed⟩
    rw [hj] at hi
    cases hi
    have hWeight := hArcs arc hArc
    have hMore :=
      hScale.add_mono_cost (h.isCost hj) hCost hWeight hLe
    exact hKnown hk
      (hFollowed.trans (hMore.trans (hLightest hCost)))
  · have hMore :=
      hScale.le_add hCost (hScale.isWeight_lightestArc hArcs b n)
    exact .inr (hLe.trans hMore)

/- If no candidate is left, all that can be reached was served. -/
theorem mem_served_of_reaches
    (h : IsSearch value IsCost arcs source floor [] served s)
    (hLine : s.line = [])
    (hReach : Relation.ReflTransGen (Leads arcs) source n) :
    n ∈ served := by
  have hKnown :
      ∀ {n k}, s.costs.lookup n = some k → n ∈ served := by
    intro n k hk
    by_contra hn
    rcases h.waits hk hn with ⟨c, hc, -⟩
    rw [hLine] at hc
    cases hc
  induction hReach with
  | refl => exact hKnown h.starts
  | tail _ hStep ih =>
      rcases hStep with ⟨arc, hArc, rfl, rfl⟩
      rcases h.followed arc hArc ih List.not_mem_nil with
        ⟨j, k, hj, hk, -⟩
      exact hKnown hk

------------------------------------------------------------
-- Candidates that Come Again
------------------------------------------------------------

/- Arcs out of a node that was served improve nothing. -/
theorem foldl_relax_of_served
    (hScale : IsScale value IsCost IsWeight)
    (hArcs : ∀ arc ∈ arcs, IsWeight arc.weight)
    (h : IsSearch value IsCost arcs source floor [] served s)
    (hn : n ∈ served)
    {k cost : W}
    (hk : s.costs.lookup n = some k)
    (hCost : IsCost cost)
    (hLe : value k ≤ value cost)
    {out : List (Arc W)}
    (hOut : out ⊆ arcsFrom arcs n) :
    out.foldl (WeightSearch.relax cost) s = s := by
  induction out with
  | nil => rfl
  | cons arc out ih =>
      rw [List.cons_subset] at hOut
      rcases mem_arcsFrom.mp hOut.1 with ⟨hArc, hFrom⟩
      have hWeight := hArcs arc hArc
      rcases h.followed arc hArc (hFrom ▸ hn) List.not_mem_nil with
        ⟨j, i, hj, hi, hFollowed⟩
      rw [hFrom, hk] at hj
      cases hj
      have hMore :=
        hScale.add_mono_cost (h.isCost hk) hCost hWeight hLe
      rw [List.foldl_cons,
        relax_of_le hScale hCost hWeight (h.isCost hi) hi
          (hFollowed.trans hMore)]
      exact ih hOut.2

end IsSearch

------------------------------------------------------------
-- Bounds
------------------------------------------------------------

/- The number of arcs out of nodes that were not served. -/
def unfollowed (arcs : List (Arc W)) (served : List NodeId) : Nat :=
  arcs.countP fun arc => arc.source ∉ served

theorem length_line_foldl_relax
    (cost : W)
    (out : List (Arc W))
    (s : WeightSearch W) :
    (out.foldl (WeightSearch.relax cost) s).line.length ≤
      s.line.length + out.length := by
  induction out generalizing s with
  | nil => exact le_refl _
  | cons arc out ih =>
      have hStep :
          (s.relax cost arc).line.length ≤ s.line.length + 1 := by
        rw [WeightSearch.relax]
        split
        · exact (length_enqueue _ _).le
        · exact Nat.le_succ _
      have hRest := ih (s.relax cost arc)
      rw [List.foldl_cons, List.length_cons]
      omega

end Searching

theorem unfollowed_cons
    {W : Type}
    (arcs : List (Arc W))
    {n : NodeId}
    {served : List NodeId}
    (hn : n ∉ served) :
    unfollowed arcs (n :: served) + (arcsFrom arcs n).length =
      unfollowed arcs served := by
  unfold unfollowed arcsFrom
  induction arcs with
  | nil => rfl
  | cons arc arcs ih =>
      by_cases hEq : arc.source = n
      · simp [hEq, hn] at ih ⊢
        omega
      · simp [List.countP_cons, hEq] at ih ⊢
        omega

------------------------------------------------------------
-- The Search
------------------------------------------------------------

section Searching

variable {W K : Type} [Scale W] [LinearOrder K]
variable {value : W → K} {IsCost IsWeight : W → Prop}
variable {arcs : List (Arc W)} {source target : NodeId}
variable {floor : W} {served : List NodeId}
variable {s : WeightSearch W} {c : Candidate W}
variable {line : List (Candidate W)}

namespace WeightSearch

/- The search behind a candidate that is not the target. -/
def settle
    (arcs : List (Arc W))
    (c : Candidate W)
    (s : WeightSearch W) : WeightSearch W :=
  if s.isStale c then
    s
  else
    (arcsFrom arcs c.node).foldl (relax c.cost) s

theorem run_of_line
    (source : NodeId)
    (bound : Nat)
    (hLine : s.line = c :: line)
    (hNe : c.node ≠ target) :
    run arcs source target (bound + 1) s =
      run arcs source target bound
        (settle arcs c { s with line := line }) := by
  rw [run, hLine, settle]
  dsimp only
  rw [if_neg hNe]
  split <;> rfl

end WeightSearch

namespace IsSearch

/- The target comes first in the line. -/
theorem routeTo_spec
    (hScale : IsScale value IsCost IsWeight)
    (hArcs : ∀ arc ∈ arcs, IsWeight arc.weight)
    (h : IsSearch value IsCost arcs source floor [] served s)
    (hLine : s.line = c :: line)
    (hNew : c.node ∉ served) :
    let route := routeTo s.before source c.node
    IsWalk (Leads arcs) source c.node route ∧
      route.Nodup ∧
      ∀ other,
        IsWalk (Leads arcs) source c.node other →
          value (weightAlong arcs route) ≤
            value (weightAlong arcs other) := by
  have hMem : c ∈ s.line := hLine ▸ List.mem_cons_self
  rcases h.inLine c hMem with ⟨-, -, k, hk, hKnown⟩
  have hFirst : ∀ a ∈ s.line, value c.cost ≤ value a.cost := by
    have hOrdered := h.isOrdered
    rw [hLine] at hOrdered ⊢
    exact List.forall_mem_cons.mpr
      ⟨le_refl _, (List.pairwise_cons.mp hOrdered).1⟩
  rcases h.exists_traced hScale hArcs hk hNew with
    ⟨route, hRoute, -, hWalk, hWeigh⟩
  rw [hRoute.routeTo_eq]
  refine ⟨hWalk, hRoute.nodup, fun other hOther => ?_⟩
  rcases h.le_weightAlong hScale hArcs hFirst hOther with
    ⟨hServed, -⟩ | hLe
  · exact absurd hServed hNew
  · exact ((hWeigh hk).trans hKnown).trans hLe

/-
  The first candidate is passed by or served.  Then there are
  fewer candidates and arcs left to look at.
-/
theorem settle
    (hScale : IsScale value IsCost IsWeight)
    (hArcs : ∀ arc ∈ arcs, IsWeight arc.weight)
    (h : IsSearch value IsCost arcs source floor [] served s)
    (hLine : s.line = c :: line) :
    let after := WeightSearch.settle arcs c { s with line := line }
    ∃ floor' served',
      IsSearch value IsCost arcs source floor' [] served' after ∧
        served' ⊆ c.node :: served ∧
        after.line.length + unfollowed arcs served' <
          s.line.length + unfollowed arcs served := by
  have hMem : c ∈ s.line := hLine ▸ List.mem_cons_self
  rcases h.inLine c hMem with ⟨hCost, -, k, hk, hLe⟩
  have hStale :
      WeightSearch.isStale { s with line := line } c =
        Scale.lt k c.cost := by
    rw [WeightSearch.isStale, hk]
  have hCompare :=
    hScale.lt_iff (hScale.isWeight (h.isCost hk))
      (hScale.isWeight hCost)
  have hOld := List.subset_cons_self c.node served
  have hShorter :
      line.length + unfollowed arcs served <
        line.length + 1 + unfollowed arcs served := by
    omega
  rw [WeightSearch.settle, hStale, hLine, List.length_cons]
  split
  case isTrue hLess =>
    -- the candidate is of no use any more
    have hDrop := h.drop hLine fun _ {i} hi hEq => by
      rw [hk] at hi
      cases hi
      exact (hCompare.mp hLess).ne' hEq
    exact ⟨floor, served, hDrop, hOld, hShorter⟩
  case isFalse hFresh =>
    have hEq : value c.cost = value k :=
      le_antisymm (not_lt.mp (mt hCompare.mpr hFresh)) hLe
    by_cases hServed : c.node ∈ served
    · -- the node is served once more, to no effect
      have hDrop := h.drop hLine fun hn => absurd hServed hn
      rw [hDrop.foldl_relax_of_served hScale hArcs hServed hk hCost
        hLe (List.Subset.refl _)]
      exact ⟨floor, served, hDrop, hOld, hShorter⟩
    · have hNext :=
        (h.serve hScale hArcs hLine hServed hk hEq).foldl_relax
          hScale hArcs
      have hLength :=
        length_line_foldl_relax c.cost (arcsFrom arcs c.node)
          { s with line := line }
      have hFollowed := unfollowed_cons arcs hServed
      dsimp only at hLength
      exact ⟨c.cost, c.node :: served, hNext, List.Subset.refl _,
        by omega⟩

/- The target was not served, and no candidate is left out. -/
theorem run_spec
    (hScale : IsScale value IsCost IsWeight)
    (hArcs : ∀ arc ∈ arcs, IsWeight arc.weight)
    (h : IsSearch value IsCost arcs source floor [] served s)
    (hTarget : target ∉ served)
    {bound : Nat}
    (hBound : s.line.length + unfollowed arcs served < bound) :
    let route := WeightSearch.run arcs source target bound s
    (route = [] →
        ¬ Relation.ReflTransGen (Leads arcs) source target) ∧
      (route ≠ [] →
        IsWalk (Leads arcs) source target route ∧
          route.Nodup ∧
          ∀ other,
            IsWalk (Leads arcs) source target other →
              value (weightAlong arcs route) ≤
                value (weightAlong arcs other)) := by
  induction bound generalizing floor served s with
  | zero => cases hBound
  | succ bound ih =>
      rcases hLine : s.line with _ | ⟨c, line⟩
      · rw [WeightSearch.run, hLine]
        refine ⟨fun _ hReach => ?_, fun hNe => absurd rfl hNe⟩
        exact hTarget (h.mem_served_of_reaches hLine hReach)
      by_cases hEq : c.node = target
      · subst hEq
        have hRoute := h.routeTo_spec hScale hArcs hLine hTarget
        rw [WeightSearch.run, hLine]
        simp only [if_true]
        exact ⟨fun hNil => absurd hNil hRoute.1.ne_nil,
          fun _ => hRoute⟩
      · rcases h.settle hScale hArcs hLine with
          ⟨floor', served', hNext, hServed, hFewer⟩
        rw [WeightSearch.run_of_line source bound hLine hEq]
        refine ih hNext (fun hMem => ?_) (by omega)
        rcases List.mem_cons.mp (hServed hMem) with hSame | hOld
        · exact hEq hSame.symm
        · exact hTarget hOld

end IsSearch

------------------------------------------------------------
-- Routes
------------------------------------------------------------

theorem isLightest_lightestAlong
    (hScale : IsScale value IsCost IsWeight)
    (hArcs : ∀ arc ∈ arcs, IsWeight arc.weight)
    (source target : NodeId) :
    IsLightest (Leads arcs) (weightAlong arcs)
      (fun x y => value x ≤ value y) source target
      (lightestAlong arcs source target) := by
  unfold lightestAlong
  split
  case isTrue hSame =>
    subst hSame
    exact
      { self := fun _ => rfl
        eq_nil_iff := ⟨nofun, fun hNone => absurd .refl hNone⟩
        isWalk := fun _ => isWalk_singleton _ source
        nodup := List.nodup_singleton source
        atMost := fun _ other _ =>
          hScale.zero_le (hScale.isCost_weightAlong hArcs other) }
  case isFalse hNe =>
    have hBound :
        (WeightSearch.start (W := W) source).line.length +
            unfollowed arcs [] <
          arcs.length + 2 := by
      have hFew : unfollowed arcs [] ≤ arcs.length :=
        List.countP_le_length
      simp only [WeightSearch.start, List.length_singleton]
      omega
    have hTarget : target ∉ ([] : List NodeId) :=
      List.not_mem_nil
    have hSpec :=
      (isSearch_start hScale arcs source).run_spec hScale hArcs
        hTarget hBound
    refine
      { self := fun hEq => absurd hEq hNe
        eq_nil_iff := ⟨hSpec.1, fun hNone => ?_⟩
        isWalk := fun h => (hSpec.2 h).1
        nodup := ?_
        atMost := fun h => (hSpec.2 h).2.2 }
    · by_contra h
      exact hNone (exists_isWalk_iff.mp ⟨_, (hSpec.2 h).1⟩)
    · by_cases hNil :
          WeightSearch.run arcs source target (arcs.length + 2)
            (.start source) = []
      · rw [hNil]
        exact List.nodup_nil
      · exact (hSpec.2 hNil).2.1

end Searching

end DotLang
