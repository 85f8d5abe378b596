import DotLang.Proofs.Route.Correctness

/-
  This file proves that the search by weight and the search by
  the number of edges find the same route, node by node, if all
  edges weigh the same.

  Then no node becomes known at less cost than before, and what
  joins the line costs no less than all that waits in it.  So
  both searches serve the same nodes in the same order.  One of
  them ends when the target is reached and the other one when it
  is served, but the way to it does not change in between.

  Key definitions include:
    * `IsEven`

  Key theorems include:
    * `IsEven.foldl_relax`
    * `IsEven.run_eq_searchWidth`
    * `lightestAlong_eq_shortestAlong`
    * `Registry.lightestRoute_eq_shortestRoute`
-/

------------------------------------------------------------
-- Routes that Stay
------------------------------------------------------------

namespace DotLang

section Discovery

variable {W : Type} {arcs out : List (Arc W)}
variable {source target n : NodeId} {route : List NodeId}
variable {before : Predecessors}

/- A route stays as it is when more nodes are found. -/
theorem IsTraced.discover
    (h : IsTraced before source n route)
    (out : List (Arc W)) :
    IsTraced ((discover source before out).reverse ++ before)
      source n route := by
  induction out generalizing before with
  | nil => exact h
  | cons arc out ih =>
      rw [DotLang.discover]
      split
      case isTrue hOld => exact ih h
      case isFalse hOld =>
        have hNew : arc.target ∉ source :: before.nodes := by
          rwa [List.mem_cons, ← Predecessors.lookup_isSome_iff]
        rw [List.reverse_cons, List.append_assoc,
          List.singleton_append]
        exact ih (h.reach hNew)

end Discovery

------------------------------------------------------------
-- Searches by Equal Weights
------------------------------------------------------------

section Searching

variable {W K : Type} [Scale W] [LinearOrder K]
variable {value : W → K} {IsCost IsWeight : W → Prop}
variable {arcs : List (Arc W)} {source target n : NodeId}
variable {floor : W} {served : List NodeId}
variable {s : WeightSearch W} {c : Candidate W}
variable {line : List (Candidate W)}

/-
  A search in which nothing is known at more than one arc above
  a floor.  The candidates wait in the order in which they came,
  at the cost that is known of their nodes.
-/
structure IsEven
    (value : W → K)
    (IsCost : W → Prop)
    (arcs : List (Arc W))
    (source : NodeId)
    (floor : W)
    (s : WeightSearch W) : Prop where
  isCost_floor : IsCost floor
  isOrdered : IsOrdered value s.line
  inLine :
    ∀ c ∈ s.line,
      value floor ≤ value c.cost ∧
        c.turn ≤ s.turns ∧
        s.costs.lookup c.node = some c.cost
  near :
    ∀ {n k},
      s.costs.lookup n = some k →
        IsCost k ∧
          ∀ arc ∈ arcs, value k ≤ value (Scale.add floor arc.weight)
  known_iff :
    ∀ n, (s.costs.lookup n).isSome ↔ n ∈ source :: s.before.nodes

theorem isEven_start
    (hScale : IsScale value IsCost IsWeight)
    (hArcs : ∀ arc ∈ arcs, IsWeight arc.weight)
    (source : NodeId) :
    IsEven value IsCost arcs source Scale.zero (.start source) where
  isCost_floor := hScale.isCost_zero
  isOrdered := List.pairwise_singleton _ _
  inLine c hc := by
    rw [List.mem_singleton.mp hc]
    exact ⟨le_refl _, le_refl _, lookup_cons_self source _ []⟩
  near {n k} hk := by
    rcases lookup_cons_cases hk with ⟨-, rfl⟩ | ⟨-, hNone⟩
    · exact ⟨hScale.isCost_zero, fun arc hArc =>
        hScale.le_add hScale.isCost_zero (hArcs arc hArc)⟩
    · cases hNone
  known_iff n := by
    by_cases hn : n = source
    · simp [WeightSearch.start, hn]
    · simp [WeightSearch.start, Predecessors.nodes, hn,
        List.lookup_cons, beq_false_of_ne hn]

namespace IsEven

/- What costs no less than all that waits joins the line last. -/
theorem enqueue_eq
    (hScale : IsScale value IsCost IsWeight)
    (h : IsEven value IsCost arcs source floor s)
    {a : Candidate W}
    (ha : IsCost a.cost)
    (hTurn : s.turns < a.turn)
    (hLast : ∀ c ∈ s.line, value c.cost ≤ value a.cost) :
    enqueue a s.line = s.line ++ [a] := by
  have hBehind : ∀ c ∈ s.line, a.precedes c = false := by
    intro c hc
    rcases h.inLine c hc with ⟨-, hEarly, hKnown⟩
    have hCost := (h.near hKnown).1
    have hNot : ¬ Scale.precedes a.cost c.cost = true := by
      rw [hScale.precedes_iff ha hCost, not_lt]
      exact hLast c hc
    have hLate : ¬ a.turn < c.turn := by omega
    simp [Candidate.precedes, hNot, hLate]
  generalize s.line = line at hBehind
  induction line with
  | nil => rfl
  | cons c line ih =>
      rcases List.forall_mem_cons.mp hBehind with ⟨hFirst, hRest⟩
      rw [enqueue, hFirst, List.cons_append]
      exact congrArg (c :: ·) (ih hRest)

/- An arc to a node that is known improves nothing. -/
theorem relax_of_mem
    (hScale : IsScale value IsCost IsWeight)
    (h : IsEven value IsCost arcs source floor s)
    {arc : Arc W}
    (hArc : arc ∈ arcs)
    (hWeight : IsWeight arc.weight)
    (hOld : arc.target ∈ source :: s.before.nodes) :
    s.relax floor arc = s := by
  rcases Option.isSome_iff_exists.mp ((h.known_iff _).mpr hOld) with
    ⟨k, hk⟩
  rcases h.near hk with ⟨hCost, hNear⟩
  exact IsSearch.relax_of_le hScale h.isCost_floor hWeight hCost hk
    (hNear arc hArc)

/- Any other arc puts its target last in the line. -/
theorem relax_of_not_mem
    (hScale : IsScale value IsCost IsWeight)
    (h : IsEven value IsCost arcs source floor s)
    {arc : Arc W}
    (hArc : arc ∈ arcs)
    (hWeight : IsWeight arc.weight)
    (hNew : arc.target ∉ source :: s.before.nodes) :
    let total := Scale.add floor arc.weight
    s.relax floor arc =
      { costs := (arc.target, total) :: s.costs
        before := (arc.target, arc.source) :: s.before
        line := s.line ++ [⟨total, s.turns + 1, arc.target⟩]
        turns := s.turns + 1 } := by
  intro total
  have hNone : s.costs.lookup arc.target = none := by
    rw [← Option.not_isSome_iff_eq_none, h.known_iff]
    exact hNew
  have hImproves : s.improves total arc.target := by
    rw [WeightSearch.improves, hNone]
  have hLast := h.enqueue_eq hScale
    (a := ⟨total, s.turns + 1, arc.target⟩)
    (hScale.isCost_add h.isCost_floor hWeight)
    (Nat.lt_succ_self _)
    fun c hc => (h.near (h.inLine c hc).2.2).2 arc hArc
  rw [WeightSearch.relax, if_pos hImproves, hLast]

/- The search stays even when the target of an arc is reached. -/
theorem reach
    (hScale : IsScale value IsCost IsWeight)
    (hSame :
      ∀ arc ∈ arcs, ∀ way ∈ arcs,
        value arc.weight = value way.weight)
    (hArcs : ∀ arc ∈ arcs, IsWeight arc.weight)
    (h : IsEven value IsCost arcs source floor s)
    {arc : Arc W}
    (hArc : arc ∈ arcs)
    (hNew : arc.target ∉ source :: s.before.nodes) :
    let total := Scale.add floor arc.weight
    IsEven value IsCost arcs source floor
      { costs := (arc.target, total) :: s.costs
        before := (arc.target, arc.source) :: s.before
        line := s.line ++ [⟨total, s.turns + 1, arc.target⟩]
        turns := s.turns + 1 } := by
  intro total
  have hWeight := hArcs arc hArc
  have hTotal : IsCost total :=
    hScale.isCost_add h.isCost_floor hWeight
  refine ⟨h.isCost_floor, ?isOrdered, ?inLine, ?near, ?known_iff⟩
  case isOrdered =>
    refine List.pairwise_append.mpr
      ⟨h.isOrdered, List.pairwise_singleton _ _, ?_⟩
    intro c hc d hd
    rw [List.mem_singleton.mp hd]
    exact (h.near (h.inLine c hc).2.2).2 arc hArc
  case inLine =>
    intro c hc
    rcases List.mem_append.mp hc with hc | hc
    · rcases h.inLine c hc with ⟨hAbove, hTurn, hKnown⟩
      have hNe : c.node ≠ arc.target := by
        intro hEq
        refine hNew ((h.known_iff _).mp ?_)
        rw [← hEq, hKnown]
        rfl
      exact ⟨hAbove, Nat.le_succ_of_le hTurn,
        (lookup_cons_of_ne hNe _).trans hKnown⟩
    · rw [List.mem_singleton.mp hc]
      exact ⟨hScale.le_add h.isCost_floor hWeight, le_refl _,
        lookup_cons_self _ _ _⟩
  case near =>
    intro n k hk
    rcases lookup_cons_cases hk with ⟨-, rfl⟩ | ⟨-, hk⟩
    · refine ⟨hTotal, fun way hWay => ?_⟩
      exact hScale.add_le_add h.isCost_floor h.isCost_floor hWeight
        (hArcs way hWay) (le_refl _) (hSame arc hArc way hWay).le
    · exact h.near hk
  case known_iff =>
    intro n
    have hOld := h.known_iff n
    by_cases hn : n = arc.target
    · subst hn
      simp [Predecessors.nodes]
    · rw [lookup_cons_of_ne hn, hOld]
      simp [Predecessors.nodes, hn]

/-
  Arcs that are followed reach the nodes that the search by the
  number of edges finds, in the same order.
-/
theorem foldl_relax
    (hScale : IsScale value IsCost IsWeight)
    (hSame :
      ∀ arc ∈ arcs, ∀ way ∈ arcs,
        value arc.weight = value way.weight)
    (hArcs : ∀ arc ∈ arcs, IsWeight arc.weight)
    (h : IsEven value IsCost arcs source floor s)
    {out : List (Arc W)}
    (hOut : out ⊆ arcs) :
    let found := discover source s.before out
    let after := out.foldl (WeightSearch.relax floor) s
    IsEven value IsCost arcs source floor after ∧
      after.before = found.reverse ++ s.before ∧
      after.line.map Candidate.node =
        s.line.map Candidate.node ++ found.map Prod.fst := by
  induction out generalizing s with
  | nil => exact ⟨h, rfl, (List.append_nil _).symm⟩
  | cons arc out ih =>
      rcases List.cons_subset.mp hOut with ⟨hArc, hRest⟩
      have hWeight := hArcs arc hArc
      have hKnown :
          (arc.target = source ∨
              (s.before.lookup arc.target).isSome) ↔
            arc.target ∈ source :: s.before.nodes := by
        rw [Predecessors.lookup_isSome_iff, List.mem_cons]
      simp only [discover, hKnown, List.foldl_cons]
      split
      case isTrue hOld =>
        rw [h.relax_of_mem hScale hArc hWeight hOld]
        exact ih h hRest
      case isFalse hNew =>
        rw [h.relax_of_not_mem hScale hArc hWeight hNew]
        rcases ih (h.reach hScale hSame hArcs hArc hNew) hRest with
          ⟨hEven, hBefore, hLine⟩
        refine ⟨hEven, ?_, ?_⟩
        · rw [hBefore, List.reverse_cons, List.append_assoc,
            List.singleton_append]
        · rw [hLine]
          simp

/- The floor rises to the cost of the candidate that is served. -/
theorem pop
    (hScale : IsScale value IsCost IsWeight)
    (hArcs : ∀ arc ∈ arcs, IsWeight arc.weight)
    (h : IsEven value IsCost arcs source floor s)
    (hLine : s.line = c :: line) :
    IsEven value IsCost arcs source c.cost { s with line := line } := by
  have hOrdered := h.isOrdered
  have hInLine := h.inLine
  rw [hLine] at hOrdered hInLine
  rcases List.pairwise_cons.mp hOrdered with ⟨hFirst, hOrdered'⟩
  rcases List.forall_mem_cons.mp hInLine with
    ⟨⟨hAbove, -, hKnown⟩, hRest⟩
  have hCost := (h.near hKnown).1
  refine ⟨hCost, hOrdered', fun a ha => ?_, fun hk => ?_,
    h.known_iff⟩
  · exact ⟨hFirst a ha, (hRest a ha).2⟩
  · rcases h.near hk with ⟨hIsCost, hNear⟩
    refine ⟨hIsCost, fun arc hArc => (hNear arc hArc).trans ?_⟩
    exact hScale.add_mono_cost h.isCost_floor hCost (hArcs arc hArc)
      hAbove

/- No candidate was reached at less cost since it joined. -/
theorem isStale_eq
    (hScale : IsScale value IsCost IsWeight)
    (h : IsEven value IsCost arcs source floor s)
    (hLine : s.line = c :: line) :
    WeightSearch.isStale { s with line := line } c = false := by
  have hMem : c ∈ s.line := hLine ▸ List.mem_cons_self
  have hKnown := (h.inLine c hMem).2.2
  have hWeight := hScale.isWeight (h.near hKnown).1
  rw [WeightSearch.isStale]
  simp only [hKnown]
  rw [← Bool.not_eq_true, hScale.not_lt_iff hWeight hWeight]

------------------------------------------------------------
-- Two Searches Side by Side
------------------------------------------------------------

/-
  Both searches serve the next node: the nodes that were reached
  and those that wait are the same behind it.
-/
theorem serve
    (hScale : IsScale value IsCost IsWeight)
    (hSame :
      ∀ arc ∈ arcs, ∀ way ∈ arcs,
        value arc.weight = value way.weight)
    (hArcs : ∀ arc ∈ arcs, IsWeight arc.weight)
    (h : IsEven value IsCost arcs source floor s)
    (hWide :
      IsWide arcs source s.before (s.line.map Candidate.node) served)
    (hLine : s.line = c :: line) :
    let found := discover source s.before (arcsFrom arcs c.node)
    ∃ after,
      IsEven value IsCost arcs source c.cost after ∧
        IsWide arcs source after.before
          (after.line.map Candidate.node) (c.node :: served) ∧
        after.before = found.reverse ++ s.before ∧
        after.line.map Candidate.node =
          line.map Candidate.node ++ found.map Prod.fst ∧
        ∀ {target bound},
          c.node ≠ target →
            WeightSearch.run arcs source target (bound + 1) s =
              WeightSearch.run arcs source target bound after := by
  have hOut : arcsFrom arcs c.node ⊆ arcs :=
    fun _ hArc => (mem_arcsFrom.mp hArc).1
  rcases (h.pop hScale hArcs hLine).foldl_relax hScale hSame hArcs
    hOut with ⟨hEven, hBefore, hNodes⟩
  refine ⟨_, hEven, ?_, hBefore, hNodes, ?_⟩
  · rw [hLine] at hWide
    rw [hBefore, hNodes]
    exact hWide.serve
  · intro target bound hNe
    rw [WeightSearch.run, hLine]
    simp only [hNe, if_false, h.isStale_eq hScale hLine,
      Bool.false_eq_true]

/-
  A target that waits is found by the way by which it was
  reached, however many nodes are served before it.
-/
theorem run_eq_routeTo
    (hScale : IsScale value IsCost IsWeight)
    (hSame :
      ∀ arc ∈ arcs, ∀ way ∈ arcs,
        value arc.weight = value way.weight)
    (hArcs : ∀ arc ∈ arcs, IsWeight arc.weight)
    (h : IsEven value IsCost arcs source floor s)
    (hWide :
      IsWide arcs source s.before (s.line.map Candidate.node) served)
    (hTarget : target ∈ s.line.map Candidate.node)
    {bound : Nat}
    (hBound : bound + served.length = arcs.length + 2) :
    WeightSearch.run arcs source target bound s =
      routeTo s.before source target := by
  induction bound generalizing floor served s with
  | zero =>
      have hLength := hWide.length_le
      omega
  | succ bound ih =>
      rcases hLine : s.line with _ | ⟨c, line⟩
      · rw [hLine] at hTarget
        cases hTarget
      by_cases hEq : c.node = target
      · rw [WeightSearch.run, hLine]
        exact if_pos hEq
      · rcases h.serve hScale hSame hArcs hWide hLine with
          ⟨after, hEven, hNext, hBefore, hNodes, hRun⟩
        have hReached : target ∈ source :: s.before.nodes :=
          hWide.perm.subset (List.mem_append_right _ hTarget)
        rcases hWide.isTree.traced target hReached with
          ⟨route, hRoute, -⟩
        have hStill := hRoute.discover (arcsFrom arcs c.node)
        have hWaits : target ∈ after.line.map Candidate.node := by
          rw [hLine] at hTarget
          rw [hNodes]
          exact List.mem_append_left _
            ((List.mem_cons.mp hTarget).resolve_left (Ne.symm hEq))
        have hBound' :
            bound + (c.node :: served).length = arcs.length + 2 := by
          rw [List.length_cons]
          omega
        rw [← hBefore] at hStill
        rw [hRun hEq, ih hEven hNext hWaits hBound',
          hStill.routeTo_eq, hRoute.routeTo_eq]

/- As long as the target is not reached, both go on. -/
theorem run_eq_searchWidth
    (hScale : IsScale value IsCost IsWeight)
    (hSame :
      ∀ arc ∈ arcs, ∀ way ∈ arcs,
        value arc.weight = value way.weight)
    (hArcs : ∀ arc ∈ arcs, IsWeight arc.weight)
    (h : IsEven value IsCost arcs source floor s)
    (hWide :
      IsWide arcs source s.before (s.line.map Candidate.node) served)
    (hTarget : target ∉ source :: s.before.nodes)
    {bound : Nat}
    (hBound : bound + served.length = arcs.length + 1) :
    WeightSearch.run arcs source target (bound + 1) s =
      searchWidth arcs source target bound s.before
        (s.line.map Candidate.node) := by
  induction bound generalizing floor served s with
  | zero =>
      have hLength := hWide.length_le
      rw [List.length_map] at hLength
      have hNone : s.line = [] := by
        rw [← List.length_eq_zero_iff]
        omega
      rw [WeightSearch.run, hNone]
      rfl
  | succ bound ih =>
      rcases hLine : s.line with _ | ⟨c, line⟩
      · rw [WeightSearch.run, hLine]
        rfl
      rcases h.serve hScale hSame hArcs hWide hLine with
        ⟨after, hEven, hNext, hBefore, hNodes, hRun⟩
      have hNe : c.node ≠ target := by
        rintro rfl
        refine hTarget (hWide.perm.subset ?_)
        rw [hLine]
        exact List.mem_append_right _ List.mem_cons_self
      have hBound' :
          bound + (c.node :: served).length = arcs.length + 1 := by
        rw [List.length_cons]
        omega
      rw [hRun hNe, List.map_cons, searchWidth]
      simp only [Predecessors.lookup_isSome_iff, ← hBefore, ← hNodes]
      split
      case isTrue hFound =>
        apply hEven.run_eq_routeTo hScale hSame hArcs hNext
        · rw [hNodes]
          exact List.mem_append_right _ hFound
        · omega
      case isFalse hMissing =>
        apply ih hEven hNext _ hBound'
        rw [hBefore, Predecessors.mem_nodes_append, not_or]
        exact ⟨hMissing, hTarget⟩

end IsEven

/- Arcs of equal weight: the lightest route is the shortest one. -/
theorem lightestAlong_eq_shortestAlong
    (hScale : IsScale value IsCost IsWeight)
    (hArcs : ∀ arc ∈ arcs, IsWeight arc.weight)
    (hSame :
      ∀ arc ∈ arcs, ∀ way ∈ arcs,
        value arc.weight = value way.weight)
    (source target : NodeId) :
    lightestAlong arcs source target =
      shortestAlong arcs source target := by
  unfold lightestAlong shortestAlong
  split
  case isTrue hEq => rfl
  case isFalse hNe =>
    apply (isEven_start hScale hArcs source).run_eq_searchWidth
      hScale hSame hArcs (isWide_start arcs source)
    · intro hMem
      exact hNe (List.mem_singleton.mp hMem).symm
    · rfl

end Searching

------------------------------------------------------------
-- Routes without Weights
------------------------------------------------------------

section Reweigh

variable {T W : Type} (f : T → W)

theorem discover_reweigh
    (source : NodeId)
    (before : Predecessors)
    (out : List (Arc T)) :
    discover source before (out.map (Arc.reweigh f)) =
      discover source before out := by
  induction out generalizing before with
  | nil => rfl
  | cons arc out ih =>
      simp only [List.map_cons, discover, Arc.reweigh, ih]

theorem searchWidth_reweigh
    (arcs : List (Arc T))
    (source target : NodeId)
    (bound : Nat)
    (before : Predecessors)
    (pending : List NodeId) :
    searchWidth (arcs.map (Arc.reweigh f)) source target bound
        before pending =
      searchWidth arcs source target bound before pending := by
  induction bound generalizing before pending with
  | zero => rfl
  | succ bound ih =>
      cases pending with
      | nil => rfl
      | cons n pending =>
          simp only [searchWidth, arcsFrom_reweigh,
            discover_reweigh, ih]

/- The route with the fewest edges does not see the weights. -/
theorem shortestAlong_reweigh
    (arcs : List (Arc T))
    (source target : NodeId) :
    shortestAlong (arcs.map (Arc.reweigh f)) source target =
      shortestAlong arcs source target := by
  rw [shortestAlong, shortestAlong, searchWidth_reweigh,
    List.length_map]

end Reweigh

------------------------------------------------------------
-- Routes of a Graph
------------------------------------------------------------

namespace Registry

variable {F : Factory} {r : Registry F} {g : GraphId}

/- Equal exact weights are equal numbers of units. -/
theorem amount_eq_of_exactFee_eq
    {t u : AttributeTable}
    (h : t.exactFee = u.exactFee) :
    (effectiveWeight t.weight).amount =
      (effectiveWeight u.weight).amount := by
  rcases t.exists_effectiveWeight with ⟨m, hm, hFee⟩
  rcases u.exists_effectiveWeight with ⟨n, hn, hFee'⟩
  rw [hFee, hFee'] at h
  rw [Binary64.amount_eq hm, Binary64.amount_eq hn,
    exactUnits_inj h]

/-
  If all edges of a graph and inside it weigh the same, then the
  route with the least weight is the one with the fewest edges,
  whether weights are added up with rounding or exactly.
-/
theorem lightestRoute_eq_shortestRoute
    {fee : ℚ}
    (hEqual :
      ∀ e ∈ r.allEdges g, (r.edge e).attributes.exactFee = fee)
    (source target : NodeId) :
    r.lightestRoute g source target =
        r.shortestRoute g source target ∧
      r.exactLightestRoute g source target =
        r.shortestRoute g source target := by
  constructor
  · refine lightestAlong_eq_shortestAlong Binary64.isScale
      isWeight_of_mem_arcs ?_ source target
    intro arc hArc way hWay
    rcases exists_edge_of_mem_arcsBy hArc with ⟨e, he, hWeight⟩
    rcases exists_edge_of_mem_arcsBy hWay with ⟨d, hd, hWeight'⟩
    rw [hWeight, hWeight']
    exact amount_eq_of_exactFee_eq
      ((hEqual e he).trans (hEqual d hd).symm)
  · have hAlong :=
      lightestAlong_eq_shortestAlong isScale_exact
        (nonneg_of_mem_exactArcs (r := r) (g := g)) ?_ source target
    · rw [exactLightestRoute, hAlong, shortestRoute, exactArcs, arcs,
        arcsBy_eq_map, arcsBy_eq_map (fun t => effectiveWeight _),
        shortestAlong_reweigh, shortestAlong_reweigh]
    · intro arc hArc way hWay
      rcases exists_edge_of_mem_arcsBy hArc with ⟨e, he, hWeight⟩
      rcases exists_edge_of_mem_arcsBy hWay with ⟨d, hd, hWeight'⟩
      rw [hWeight, hWeight', hEqual e he, hEqual d hd]

/- Two ways around a square, where nothing weighs anything. -/
def freeSquare : Registry .plain :=
  (Registry.load (.empty () {})
    "graph \x7bedge [weight=0] a--b subgraph \x7ba--c c--d\x7d b--d\x7d").registry

theorem lightestRoute_freeSquare :
    (∀ e ∈ freeSquare.allEdges ⟨0⟩,
        (freeSquare.edge e).attributes.exactFee = 0) ∧
      freeSquare.lightestRoute ⟨0⟩ ⟨0⟩ ⟨3⟩ =
          freeSquare.shortestRoute ⟨0⟩ ⟨0⟩ ⟨3⟩ ∧
      freeSquare.exactLightestRoute ⟨0⟩ ⟨0⟩ ⟨3⟩ =
          freeSquare.shortestRoute ⟨0⟩ ⟨0⟩ ⟨3⟩ := by
  have hEqual :
      ∀ e ∈ freeSquare.allEdges ⟨0⟩,
        (freeSquare.edge e).attributes.exactFee = 0 := by
    decide +kernel
  exact ⟨hEqual, lightestRoute_eq_shortestRoute hEqual ⟨0⟩ ⟨3⟩⟩

end Registry

end DotLang
