import DotLang.Proofs.Route.Scale

/-
  This file defines what holds while a search by weight goes on,
  and proves that it holds from one candidate to the next one.

  Nodes are served at costs that do not fall, and what is known
  of a node that was served does not change any more.  A node may
  stand in line several times, but its arcs are followed once.

  Key definitions include:
    * `IsSearch`

  Key theorems include:
    * `IsSearch.relax`
    * `IsSearch.serve`
    * `IsSearch.drop`
-/

------------------------------------------------------------
-- Known Costs
------------------------------------------------------------

namespace DotLang

section Searching

variable {W K : Type} [LinearOrder K] {value : W → K}

/- What was known to be at most something still is. -/
theorem exists_lookup_cons_le
    {costs : List (NodeId × W)}
    {m n : NodeId}
    {total k : W}
    (hLess :
      ∀ {k}, costs.lookup m = some k → value total < value k)
    (hk : costs.lookup n = some k) :
    ∃ k',
      List.lookup n ((m, total) :: costs) = some k' ∧
        value k' ≤ value k := by
  by_cases hn : n = m
  · subst hn
    exact ⟨total, lookup_cons_self _ _ _, (hLess hk).le⟩
  · exact ⟨k, by rw [lookup_cons_of_ne hn, hk], le_refl _⟩

------------------------------------------------------------
-- The Line of Candidates
------------------------------------------------------------

/- Candidates in the order of their costs. -/
def IsOrdered
    (value : W → K)
    (line : List (Candidate W)) : Prop :=
  line.Pairwise fun a b => value a.cost ≤ value b.cost

variable [Scale W] {IsCost IsWeight : W → Prop}
variable {arcs : List (Arc W)} {source target : NodeId}

theorem mem_enqueue
    {a c : Candidate W}
    {line : List (Candidate W)} :
    c ∈ enqueue a line ↔ c = a ∨ c ∈ line := by
  induction line with
  | nil => simp [enqueue]
  | cons b line ih =>
      rw [enqueue]
      split
      · rw [List.mem_cons]
      · rw [List.mem_cons, List.mem_cons, ih, or_left_comm]

theorem length_enqueue
    (a : Candidate W)
    (line : List (Candidate W)) :
    (enqueue a line).length = line.length + 1 := by
  induction line with
  | nil => rfl
  | cons b line ih =>
      rw [enqueue]
      split
      · rfl
      · rw [List.length_cons, ih, List.length_cons]

/- A candidate is served no later than its cost demands. -/
theorem IsScale.isOrdered_enqueue
    (hScale : IsScale value IsCost IsWeight)
    {a : Candidate W}
    (ha : IsCost a.cost)
    {line : List (Candidate W)}
    (hCosts : ∀ c ∈ line, IsCost c.cost)
    (hLine : IsOrdered value line) :
    IsOrdered value (enqueue a line) := by
  induction line with
  | nil => exact List.pairwise_singleton _ a
  | cons b line ih =>
      have hb := hCosts b List.mem_cons_self
      have hRest : ∀ c ∈ line, IsCost c.cost :=
        fun c hc => hCosts c (List.mem_cons_of_mem b hc)
      rcases List.pairwise_cons.mp hLine with ⟨hFirst, hLine'⟩
      rw [enqueue]
      split
      case isTrue hBefore =>
        have hLe : value a.cost ≤ value b.cost := by
          simp only [Candidate.precedes, Bool.or_eq_true,
            Bool.and_eq_true, Bool.not_eq_true',
            ← Bool.not_eq_true, hScale.precedes_iff ha hb,
            hScale.precedes_iff hb ha] at hBefore
          rcases hBefore with hLt | ⟨hGe, -⟩
          · exact hLt.le
          · exact not_lt.mp hGe
        refine List.pairwise_cons.mpr ⟨?_, hLine⟩
        intro c hc
        rcases List.mem_cons.mp hc with rfl | hc
        · exact hLe
        · exact hLe.trans (hFirst c hc)
      case isFalse hBehind =>
        have hLe : value b.cost ≤ value a.cost := by
          simp only [Candidate.precedes, Bool.or_eq_true,
            not_or, hScale.precedes_iff ha hb] at hBehind
          exact not_lt.mp hBehind.1
        refine List.pairwise_cons.mpr ⟨?_, ih hRest hLine'⟩
        intro c hc
        rcases mem_enqueue.mp hc with rfl | hc
        · exact hLe
        · exact hFirst c hc

------------------------------------------------------------
-- Searches
------------------------------------------------------------

/-
  A search that has served some nodes at costs up to a floor, and
  has yet to follow some arcs out of the last one of them.

  What is known of a node that was not served is the cost of a
  candidate, and comes from a node that was.
-/
structure IsSearch
    (value : W → K)
    (IsCost : W → Prop)
    (arcs : List (Arc W))
    (source : NodeId)
    (floor : W)
    (todo : List (Arc W))
    (served : List NodeId)
    (s : WeightSearch W) : Prop where
  starts : s.costs.lookup source = some Scale.zero
  isCost : ∀ {n k}, s.costs.lookup n = some k → IsCost k
  isCost_floor : IsCost floor
  isOrdered : IsOrdered value s.line
  inLine :
    ∀ c ∈ s.line,
      IsCost c.cost ∧
        value floor ≤ value c.cost ∧
        ∃ k,
          s.costs.lookup c.node = some k ∧
            value k ≤ value c.cost
  waits :
    ∀ {n k},
      s.costs.lookup n = some k →
        n ∉ served →
          ∃ c ∈ s.line, c.node = n ∧ value c.cost = value k
  comes :
    ∀ {n k},
      s.costs.lookup n = some k →
        n ∉ served →
        n ≠ source →
          ∃ arc ∈ arcs,
            arc.source ∈ served ∧
              arc.target = n ∧
              s.before.lookup n = some arc.source ∧
              ∃ j,
                s.costs.lookup arc.source = some j ∧
                  value (Scale.add j arc.weight) ≤ value k
  final :
    ∀ n ∈ served,
      ∃ k, s.costs.lookup n = some k ∧ value k ≤ value floor
  traced :
    ∀ n ∈ served,
      ∃ route,
        IsTraced s.before source n route ∧
          route ⊆ served ∧
          IsWalk (Leads arcs) source n route ∧
          ∀ {k},
            s.costs.lookup n = some k →
              value (weightAlong arcs route) ≤ value k
  followed :
    ∀ arc ∈ arcs,
      arc.source ∈ served →
        arc ∉ todo →
          ∃ j k,
            s.costs.lookup arc.source = some j ∧
              s.costs.lookup arc.target = some k ∧
              value k ≤ value (Scale.add j arc.weight)
  pending :
    ∀ arc ∈ todo,
      arc ∈ arcs ∧
        arc.source ∈ served ∧
        ∃ j,
          s.costs.lookup arc.source = some j ∧
            value j = value floor

theorem isSearch_start
    (hScale : IsScale value IsCost IsWeight)
    (arcs : List (Arc W))
    (source : NodeId) :
    IsSearch value IsCost arcs source Scale.zero [] []
      (.start source) := by
  have hSource :
      (WeightSearch.start source).costs.lookup source =
        some (Scale.zero : W) :=
    lookup_cons_self source Scale.zero []
  have hLookup :
      ∀ {n : NodeId} {k : W},
        (WeightSearch.start source).costs.lookup n = some k →
          n = source ∧ k = Scale.zero := by
    intro n k h
    rcases lookup_cons_cases h with hBoth | ⟨-, hNone⟩
    · exact hBoth
    · cases hNone
  exact
    { starts := hSource
      isCost := fun h => (hLookup h).2 ▸ hScale.isCost_zero
      isCost_floor := hScale.isCost_zero
      isOrdered := List.pairwise_singleton _ _
      inLine := fun c hc => by
        rw [WeightSearch.start, List.mem_singleton] at hc
        subst hc
        exact ⟨hScale.isCost_zero, le_refl _, _, hSource, le_refl _⟩
      waits := fun h _ => by
        rcases hLookup h with ⟨rfl, rfl⟩
        exact ⟨_, List.mem_cons_self, rfl, rfl⟩
      comes := fun h _ hNe => absurd (hLookup h).1 hNe
      final := nofun
      traced := nofun
      followed := nofun
      pending := nofun }

namespace IsSearch

variable {floor : W} {todo : List (Arc W)} {served : List NodeId}
variable {s : WeightSearch W} {c : Candidate W}
variable {line : List (Candidate W)}

/- The route by which a node was reached that is served next. -/
theorem exists_traced
    (hScale : IsScale value IsCost IsWeight)
    (hArcs : ∀ arc ∈ arcs, IsWeight arc.weight)
    (h : IsSearch value IsCost arcs source floor todo served s)
    {n : NodeId}
    {k : W}
    (hk : s.costs.lookup n = some k)
    (hn : n ∉ served) :
    ∃ route,
      IsTraced s.before source n route ∧
        route ⊆ n :: served ∧
        IsWalk (Leads arcs) source n route ∧
        ∀ {k},
          s.costs.lookup n = some k →
            value (weightAlong arcs route) ≤ value k := by
  by_cases hSource : n = source
  · subst hSource
    refine ⟨[n], .source, by simp, isWalk_singleton _ n, ?_⟩
    intro k hk
    rw [h.starts] at hk
    cases hk
    exact le_refl _
  · rcases h.comes hk hn hSource with
      ⟨arc, hArc, hFrom, rfl, hBefore, j, hj, hLe⟩
    rcases h.traced _ hFrom with ⟨route, hRoute, hSub, hWalk, hWeigh⟩
    refine ⟨route ++ [arc.target],
      .step hRoute hBefore fun hMem => hn (hSub hMem), ?_,
      hWalk.snoc (Arc.leads hArc), ?_⟩
    · rw [List.append_subset]
      exact ⟨List.subset_cons_of_subset _ hSub, by simp⟩
    · intro i hi
      rw [hk] at hi
      cases hi
      rw [weightAlong, addWeights_concat hWalk.last]
      refine le_trans ?_ hLe
      exact hScale.add_le_add
        (hScale.isCost_weightAlong hArcs route) (h.isCost hj)
        (hScale.isWeight_lightestArc hArcs _ _) (hArcs arc hArc)
        (hWeigh hj) (hScale.lightestArc_le hArcs hArc)

------------------------------------------------------------
-- Following an Arc
------------------------------------------------------------

/- An arc that leads to a known node at no less cost. -/
theorem relax_of_le
    (hScale : IsScale value IsCost IsWeight)
    {cost k : W}
    {arc : Arc W}
    (hCost : IsCost cost)
    (hWeight : IsWeight arc.weight)
    (hk : IsCost k)
    (hKnown : s.costs.lookup arc.target = some k)
    (hLe : value k ≤ value (Scale.add cost arc.weight)) :
    s.relax cost arc = s := by
  have hTotal := hScale.isCost_add hCost hWeight
  have hNot :=
    (hScale.not_lt_iff (hScale.isWeight hTotal)
      (hScale.isWeight hk)).mpr hLe
  rw [WeightSearch.relax, WeightSearch.improves, hKnown]
  exact if_neg hNot

/- The target of the next arc is known at no more cost. -/
theorem skip
    (hScale : IsScale value IsCost IsWeight)
    {arc : Arc W}
    (hWeight : IsWeight arc.weight)
    (h : IsSearch value IsCost arcs source floor (arc :: todo)
      served s)
    {k : W}
    (hk : s.costs.lookup arc.target = some k)
    (hLe : value k ≤ value (Scale.add floor arc.weight)) :
    IsSearch value IsCost arcs source floor todo served s := by
  rcases h.pending arc List.mem_cons_self with
    ⟨hArc, hServed, j, hj, hFloor⟩
  have hSame :=
    hScale.add_mono_cost h.isCost_floor (h.isCost hj) hWeight
      hFloor.ge
  refine
    { h with
      followed := ?_
      pending := fun a ha =>
        h.pending a (List.mem_cons_of_mem arc ha) }
  intro a ha hFrom hDone
  by_cases hEq : a = arc
  · subst hEq
    exact ⟨j, k, hj, hk, hLe.trans hSame⟩
  · exact h.followed a ha hFrom (by simp [hEq, hDone])

/- A node that was served is known at no more than the floor. -/
theorem not_mem_served
    (h : IsSearch value IsCost arcs source floor todo served s)
    {n : NodeId}
    {total : W}
    (hAbove : value floor ≤ value total)
    (hLess :
      ∀ {k}, s.costs.lookup n = some k → value total < value k) :
    n ∉ served := by
  intro hMem
  rcases h.final n hMem with ⟨k, hk, hLe⟩
  exact absurd (hLess hk) (hLe.trans hAbove).not_gt

/- The source is known at no cost. -/
theorem ne_source
    (hScale : IsScale value IsCost IsWeight)
    (h : IsSearch value IsCost arcs source floor todo served s)
    {n : NodeId}
    {total : W}
    (hCost : IsCost total)
    (hLess :
      ∀ {k}, s.costs.lookup n = some k → value total < value k) :
    n ≠ source := by
  rintro rfl
  exact absurd (hLess h.starts) (hScale.zero_le hCost).not_gt

/- The target of the next arc becomes known at less cost. -/
theorem improve
    (hScale : IsScale value IsCost IsWeight)
    {arc : Arc W}
    (hWeight : IsWeight arc.weight)
    (h : IsSearch value IsCost arcs source floor (arc :: todo)
      served s)
    {total : W}
    (hTotal : total = Scale.add floor arc.weight)
    (hLess :
      ∀ {k},
        s.costs.lookup arc.target = some k →
          value total < value k) :
    IsSearch value IsCost arcs source floor todo served
      { costs := (arc.target, total) :: s.costs
        before := (arc.target, arc.source) :: s.before
        line := enqueue ⟨total, s.turns + 1, arc.target⟩ s.line
        turns := s.turns + 1 } := by
  rcases h.pending arc List.mem_cons_self with
    ⟨hArc, hServed, j, hj, hFloor⟩
  have hCost : IsCost total :=
    hTotal ▸ hScale.isCost_add h.isCost_floor hWeight
  have hAbove : value floor ≤ value total :=
    hTotal ▸ hScale.le_add h.isCost_floor hWeight
  have hSame : value total = value (Scale.add j arc.weight) := by
    rw [hTotal]
    exact hScale.add_congr_cost h.isCost_floor (h.isCost hj) hWeight
      hFloor.symm
  have hNew := h.not_mem_served hAbove hLess
  have hNe := h.ne_source hScale hCost hLess
  have hOther :
      ∀ {n},
        n ≠ arc.target →
          List.lookup n ((arc.target, total) :: s.costs) =
            s.costs.lookup n :=
    fun hn => lookup_cons_of_ne hn total
  have hKeep :
      ∀ {n},
        n ∈ served →
          List.lookup n ((arc.target, total) :: s.costs) =
            s.costs.lookup n :=
    fun hn => hOther fun hEq => hNew (hEq ▸ hn)
  refine
    { starts := by rw [hOther hNe.symm, h.starts]
      isCost := ?isCost
      isCost_floor := h.isCost_floor
      isOrdered :=
        hScale.isOrdered_enqueue hCost
          (fun c hc => (h.inLine c hc).1) h.isOrdered
      inLine := ?inLine
      waits := ?waits
      comes := ?comes
      final := fun n hn => by rw [hKeep hn]; exact h.final n hn
      traced := ?traced
      followed := ?followed
      pending := ?pending }
  case isCost =>
    intro n k hk
    rcases lookup_cons_cases hk with ⟨rfl, rfl⟩ | ⟨-, hk⟩
    · exact hCost
    · exact h.isCost hk
  case inLine =>
    intro c hc
    rcases mem_enqueue.mp hc with rfl | hc
    · exact ⟨hCost, hAbove, total, lookup_cons_self _ _ _,
        le_refl _⟩
    · rcases h.inLine c hc with ⟨hCost', hUp, k, hk, hLe⟩
      rcases exists_lookup_cons_le hLess hk with ⟨k', hk', hLe'⟩
      exact ⟨hCost', hUp, k', hk', hLe'.trans hLe⟩
  case waits =>
    intro n k hk hn
    rcases lookup_cons_cases hk with ⟨rfl, rfl⟩ | ⟨-, hk⟩
    · exact ⟨_, mem_enqueue.mpr (.inl rfl), rfl, rfl⟩
    · rcases h.waits hk hn with ⟨c, hc, hNode, hEq⟩
      exact ⟨c, mem_enqueue.mpr (.inr hc), hNode, hEq⟩
  case comes =>
    intro n k hk hn hFar
    rcases lookup_cons_cases hk with ⟨rfl, rfl⟩ | ⟨hNotTarget, hk⟩
    · exact ⟨arc, hArc, hServed, rfl, lookup_cons_self _ _ _, j,
        by rw [hKeep hServed, hj], hSame.ge⟩
    · rcases h.comes hk hn hFar with
        ⟨way, hWay, hFrom, hTo, hBefore, i, hi, hLe⟩
      exact ⟨way, hWay, hFrom, hTo,
        (lookup_cons_of_ne hNotTarget _).trans hBefore, i,
        by rw [hKeep hFrom, hi], hLe⟩
  case traced =>
    intro n hn
    rcases h.traced n hn with ⟨route, hRoute, hSub, hWalk, hWeigh⟩
    refine ⟨route, hRoute.congr ?_, hSub, hWalk, ?_⟩
    · intro m hm _
      have hFar : m ≠ arc.target := by
        rintro rfl
        exact hNew (hSub hm)
      exact lookup_cons_of_ne hFar _
    · intro k hk
      rw [hKeep hn] at hk
      exact hWeigh hk
  case followed =>
    intro a ha hFrom hDone
    by_cases hEq : a = arc
    · subst hEq
      exact ⟨j, total, by rw [hKeep hFrom, hj],
        lookup_cons_self _ _ _, hSame.le⟩
    · rcases h.followed a ha hFrom (by simp [hEq, hDone]) with
        ⟨i, k, hi, hk, hLe⟩
      rcases exists_lookup_cons_le hLess hk with ⟨k', hk', hLe'⟩
      exact ⟨i, k', by rw [hKeep hFrom, hi], hk', hLe'.trans hLe⟩
  case pending =>
    intro a ha
    rcases h.pending a (List.mem_cons_of_mem arc ha) with
      ⟨hMem, hFrom, hEqual⟩
    rw [hKeep hFrom]
    exact ⟨hMem, hFrom, hEqual⟩

/- The next arc is followed. -/
theorem relax
    (hScale : IsScale value IsCost IsWeight)
    {arc : Arc W}
    (hWeight : IsWeight arc.weight)
    (h : IsSearch value IsCost arcs source floor (arc :: todo)
      served s) :
    IsSearch value IsCost arcs source floor todo served
      (s.relax floor arc) := by
  have hTotal := hScale.isCost_add h.isCost_floor hWeight
  cases hk : s.costs.lookup arc.target with
  | none =>
      have hImproves :
          s.improves (Scale.add floor arc.weight) arc.target := by
        rw [WeightSearch.improves, hk]
      rw [WeightSearch.relax, if_pos hImproves]
      exact h.improve hScale hWeight rfl fun hk' => by
        rw [hk] at hk'
        cases hk'
  | some k =>
      have hCompare :=
        hScale.lt_iff (hScale.isWeight hTotal)
          (hScale.isWeight (h.isCost hk))
      by_cases hLess :
          value (Scale.add floor arc.weight) < value k
      · have hImproves :
            s.improves (Scale.add floor arc.weight) arc.target := by
          rw [WeightSearch.improves, hk]
          exact hCompare.mpr hLess
        rw [WeightSearch.relax, if_pos hImproves]
        exact h.improve hScale hWeight rfl fun hk' => by
          rw [hk] at hk'
          cases hk'
          exact hLess
      · have hLe := not_lt.mp hLess
        rw [relax_of_le hScale h.isCost_floor hWeight (h.isCost hk)
          hk hLe]
        exact h.skip hScale hWeight hk hLe

theorem foldl_relax
    (hScale : IsScale value IsCost IsWeight)
    (hArcs : ∀ arc ∈ arcs, IsWeight arc.weight)
    (h : IsSearch value IsCost arcs source floor todo served s) :
    IsSearch value IsCost arcs source floor [] served
      (todo.foldl (WeightSearch.relax floor) s) := by
  induction todo generalizing s with
  | nil => exact h
  | cons arc todo ih =>
      have hArc := (h.pending arc List.mem_cons_self).1
      exact ih (h.relax hScale (hArcs arc hArc))

------------------------------------------------------------
-- Serving a Candidate
------------------------------------------------------------

/- A node that was not served yet, at the cost known of it. -/
theorem serve
    (hScale : IsScale value IsCost IsWeight)
    (hArcs : ∀ arc ∈ arcs, IsWeight arc.weight)
    (h : IsSearch value IsCost arcs source floor [] served s)
    (hLine : s.line = c :: line)
    (hNew : c.node ∉ served)
    {k : W}
    (hk : s.costs.lookup c.node = some k)
    (hCost : value c.cost = value k) :
    IsSearch value IsCost arcs source c.cost (arcsFrom arcs c.node)
      (c.node :: served) { s with line := line } := by
  have hMem : c ∈ s.line := hLine ▸ List.mem_cons_self
  have hRest : ∀ a ∈ line, a ∈ s.line :=
    fun a ha => hLine ▸ List.mem_cons_of_mem c ha
  have hOrdered := h.isOrdered
  rw [hLine] at hOrdered
  rcases List.pairwise_cons.mp hOrdered with ⟨hFirst, hOrdered'⟩
  rcases h.inLine c hMem with ⟨hIsCost, hUp, -⟩
  refine
    { starts := h.starts
      isCost := h.isCost
      isCost_floor := hIsCost
      isOrdered := hOrdered'
      inLine := ?inLine
      waits := ?waits
      comes := ?comes
      final := ?final
      traced := ?traced
      followed := ?followed
      pending := ?pending }
  case inLine =>
    intro a ha
    rcases h.inLine a (hRest a ha) with ⟨hCost', -, hKnown⟩
    exact ⟨hCost', hFirst a ha, hKnown⟩
  case waits =>
    intro n j hj hn
    rw [List.mem_cons, not_or] at hn
    rcases h.waits hj hn.2 with ⟨a, ha, hNode, hEq⟩
    rw [hLine] at ha
    rcases List.mem_cons.mp ha with rfl | ha
    · exact absurd hNode.symm hn.1
    · exact ⟨a, ha, hNode, hEq⟩
  case comes =>
    intro n j hj hn hFar
    rw [List.mem_cons, not_or] at hn
    rcases h.comes hj hn.2 hFar with
      ⟨arc, hArc, hFrom, hArcRest⟩
    exact ⟨arc, hArc, List.mem_cons_of_mem _ hFrom, hArcRest⟩
  case final =>
    intro n hn
    rcases List.mem_cons.mp hn with rfl | hn
    · exact ⟨k, hk, hCost.ge⟩
    · rcases h.final n hn with ⟨j, hj, hLe⟩
      exact ⟨j, hj, hLe.trans hUp⟩
  case traced =>
    intro n hn
    rcases List.mem_cons.mp hn with rfl | hn
    · exact h.exists_traced hScale hArcs hk hNew
    · rcases h.traced n hn with ⟨route, hRoute, hSub, hWalk⟩
      exact ⟨route, hRoute, List.subset_cons_of_subset _ hSub,
        hWalk⟩
  case followed =>
    intro arc hArc hFrom hDone
    rcases List.mem_cons.mp hFrom with hFrom | hFrom
    · exact absurd (mem_arcsFrom.mpr ⟨hArc, hFrom⟩) hDone
    · exact h.followed arc hArc hFrom List.not_mem_nil
  case pending =>
    intro arc hArc
    rcases mem_arcsFrom.mp hArc with ⟨hMem, hFrom⟩
    rw [hFrom]
    exact ⟨hMem, List.mem_cons_self, k, hk, hCost.symm⟩

/- A candidate leaves the line and the rest stays. -/
theorem drop
    (h : IsSearch value IsCost arcs source floor [] served s)
    (hLine : s.line = c :: line)
    (hOld :
      c.node ∉ served →
        ∀ {k},
          s.costs.lookup c.node = some k →
            value c.cost ≠ value k) :
    IsSearch value IsCost arcs source floor [] served
      { s with line := line } := by
  have hRest : ∀ a ∈ line, a ∈ s.line :=
    fun a ha => hLine ▸ List.mem_cons_of_mem c ha
  have hOrdered := h.isOrdered
  rw [hLine] at hOrdered
  refine
    { h with
      isOrdered := (List.pairwise_cons.mp hOrdered).2
      inLine := fun a ha => h.inLine a (hRest a ha)
      waits := ?_ }
  intro n k hk hn
  rcases h.waits hk hn with ⟨a, ha, rfl, hEq⟩
  rw [hLine] at ha
  rcases List.mem_cons.mp ha with rfl | ha
  · exact absurd hEq (hOld hn hk)
  · exact ⟨a, ha, rfl, hEq⟩

end IsSearch

end Searching

end DotLang
