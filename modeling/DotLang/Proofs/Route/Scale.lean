import DotLang.Proofs.Route.Walk
import Mathlib.Order.Lattice

/-
  This file defines what a search by weight needs to know about
  the scale of the weights, and proves what follows for the
  weights of routes.

  Sums need not be exact.  It is enough that they do not fall
  below what they start from, and that they keep the order.

  Key definitions include:
    * `IsScale`

  Key theorems include:
    * `IsScale.add_mono_cost`
    * `IsScale.lightestArc_le`
    * `IsScale.exists_add_le`
    * `IsScale.isCost_weightAlong`
-/

------------------------------------------------------------
-- Scales
------------------------------------------------------------

namespace DotLang

/-
  The numbers of a scale are compared by their values.  Weights
  are added to costs, and yield costs.
-/
structure IsScale
    {W K : Type}
    [Scale W]
    [LinearOrder K]
    (value : W → K)
    (IsCost IsWeight : W → Prop) : Prop where
  isCost_zero : IsCost Scale.zero
  isWeight_infinite : IsWeight Scale.infinite
  isWeight : ∀ {x}, IsCost x → IsWeight x
  isCost_add :
    ∀ {x w}, IsCost x → IsWeight w → IsCost (Scale.add x w)
  lt_iff :
    ∀ {x y},
      IsWeight x →
        IsWeight y →
        (Scale.lt x y = true ↔ value x < value y)
  precedes_iff :
    ∀ {x y},
      IsCost x →
        IsCost y →
        (Scale.precedes x y = true ↔ value x < value y)
  zero_le : ∀ {x}, IsCost x → value Scale.zero ≤ value x
  le_add :
    ∀ {x w}, IsCost x → IsWeight w → value x ≤ value (Scale.add x w)
  add_le_add :
    ∀ {x y w v},
      IsCost x →
      IsCost y →
      IsWeight w →
      IsWeight v →
      value x ≤ value y →
      value w ≤ value v →
        value (Scale.add x w) ≤ value (Scale.add y v)
  add_le_infinite :
    ∀ {x w},
      IsCost x →
        IsWeight w →
        value (Scale.add x w) ≤ value (Scale.add x Scale.infinite)

section Weighing

variable {W K : Type} [Scale W] [LinearOrder K]
variable {value : W → K} {IsCost IsWeight : W → Prop}
variable {arcs : List (Arc W)} {a b : NodeId}

namespace IsScale

theorem not_lt_iff
    (hScale : IsScale value IsCost IsWeight)
    {x y : W}
    (hx : IsWeight x)
    (hy : IsWeight y) :
    ¬ Scale.lt x y = true ↔ value y ≤ value x := by
  rw [hScale.lt_iff hx hy, not_lt]

/- A weight keeps the order of the costs that it is added to. -/
theorem add_mono_cost
    (hScale : IsScale value IsCost IsWeight)
    {x y w : W}
    (hx : IsCost x)
    (hy : IsCost y)
    (hw : IsWeight w)
    (hLe : value x ≤ value y) :
    value (Scale.add x w) ≤ value (Scale.add y w) :=
  hScale.add_le_add hx hy hw hw hLe (le_refl _)

theorem add_congr_cost
    (hScale : IsScale value IsCost IsWeight)
    {x y w : W}
    (hx : IsCost x)
    (hy : IsCost y)
    (hw : IsWeight w)
    (hEq : value x = value y) :
    value (Scale.add x w) = value (Scale.add y w) :=
  le_antisymm (hScale.add_mono_cost hx hy hw hEq.le)
    (hScale.add_mono_cost hy hx hw hEq.ge)

------------------------------------------------------------
-- Lightest Arcs
------------------------------------------------------------

/- The least of some weights is one of them. -/
theorem foldl_lighter
    (hScale : IsScale value IsCost IsWeight)
    {ways : List (Arc W)}
    (hWays : ∀ arc ∈ ways, IsWeight arc.weight)
    {start : W}
    (hStart : IsWeight start) :
    let least :=
      ways.foldl
        (fun least arc =>
          if Scale.lt arc.weight least then arc.weight else least)
        start
    IsWeight least ∧
      value least ≤ value start ∧
      (∀ arc ∈ ways, value least ≤ value arc.weight) ∧
      (least = start ∨ ∃ arc ∈ ways, least = arc.weight) := by
  induction ways generalizing start with
  | nil => exact ⟨hStart, le_refl _, nofun, .inl rfl⟩
  | cons arc ways ih =>
      have hArc := hWays arc List.mem_cons_self
      have hRest : ∀ way ∈ ways, IsWeight way.weight :=
        fun way h => hWays way (List.mem_cons_of_mem arc h)
      simp only [List.foldl_cons]
      split
      case isTrue hLighter =>
        rw [hScale.lt_iff hArc hStart] at hLighter
        rcases ih hRest hArc with ⟨hLeast, hLe, hAll, hOne⟩
        refine ⟨hLeast, hLe.trans hLighter.le, ?_, .inr ?_⟩
        · exact List.forall_mem_cons.mpr ⟨hLe, hAll⟩
        · rcases hOne with hEq | ⟨way, hWay, hEq⟩
          · exact ⟨arc, List.mem_cons_self, hEq⟩
          · exact ⟨way, List.mem_cons_of_mem arc hWay, hEq⟩
      case isFalse hHeavier =>
        rw [hScale.not_lt_iff hArc hStart] at hHeavier
        rcases ih hRest hStart with ⟨hLeast, hLe, hAll, hOne⟩
        refine ⟨hLeast, hLe, ?_, ?_⟩
        · exact List.forall_mem_cons.mpr
            ⟨hLe.trans hHeavier, hAll⟩
        · rcases hOne with hEq | ⟨way, hWay, hEq⟩
          · exact .inl hEq
          · exact .inr ⟨way, List.mem_cons_of_mem arc hWay, hEq⟩

theorem isWeight_lightestArc
    (hScale : IsScale value IsCost IsWeight)
    (hArcs : ∀ arc ∈ arcs, IsWeight arc.weight)
    (a b : NodeId) :
    IsWeight (lightestArc arcs a b) :=
  (hScale.foldl_lighter
    (fun arc h => hArcs arc (mem_arcsFrom_filter.mp h).1)
    hScale.isWeight_infinite).1

/- No arc weighs less than the lightest one. -/
theorem lightestArc_le
    (hScale : IsScale value IsCost IsWeight)
    (hArcs : ∀ arc ∈ arcs, IsWeight arc.weight)
    {arc : Arc W}
    (hArc : arc ∈ arcs) :
    value (lightestArc arcs arc.source arc.target) ≤
      value arc.weight :=
  (hScale.foldl_lighter
    (fun way h => hArcs way (mem_arcsFrom_filter.mp h).1)
    hScale.isWeight_infinite).2.2.1 arc
      (mem_arcsFrom_filter.mpr ⟨hArc, rfl, rfl⟩)

/- Some arc adds no more than the lightest one. -/
theorem exists_add_le
    (hScale : IsScale value IsCost IsWeight)
    (hArcs : ∀ arc ∈ arcs, IsWeight arc.weight)
    (hLeads : Leads arcs a b) :
    ∃ arc ∈ arcs,
      arc.source = a ∧
        arc.target = b ∧
        ∀ {x : W},
          IsCost x →
            value (Scale.add x arc.weight) ≤
              value (Scale.add x (lightestArc arcs a b)) := by
  rcases hLeads with ⟨arc, hArc, hSource, hTarget⟩
  have hWays :
      ∀ way ∈ (arcsFrom arcs a).filter fun way => way.target = b,
        IsWeight way.weight :=
    fun way h => hArcs way (mem_arcsFrom_filter.mp h).1
  have hOne :=
    (hScale.foldl_lighter hWays hScale.isWeight_infinite).2.2.2
  rcases hOne with hEq | ⟨way, hWay, hEq⟩
  · refine ⟨arc, hArc, hSource, hTarget, fun hx => ?_⟩
    rw [lightestArc, hEq]
    exact hScale.add_le_infinite hx (hArcs arc hArc)
  · rcases mem_arcsFrom_filter.mp hWay with ⟨hMem, hFrom, hTo⟩
    refine ⟨way, hMem, hFrom, hTo, fun _ => ?_⟩
    rw [lightestArc, hEq]

end IsScale

------------------------------------------------------------
-- Weights of Routes
------------------------------------------------------------

/- The last step of a route is added last. -/
theorem addWeights_concat
    {route : List NodeId}
    (hLast : route.getLast? = some a)
    (total : W) :
    addWeights arcs total (route ++ [b]) =
      Scale.add (addWeights arcs total route)
        (lightestArc arcs a b) := by
  induction route generalizing total with
  | nil => cases hLast
  | cons n route ih =>
      rcases route with _ | ⟨m, route⟩
      · have hEq : n = a := by simpa using hLast
        subst hEq
        simp only [List.singleton_append, addWeights]
      · rw [List.getLast?_cons_cons] at hLast
        simp only [List.cons_append, addWeights] at ih ⊢
        exact ih hLast _

theorem IsScale.isCost_addWeights
    (hScale : IsScale value IsCost IsWeight)
    (hArcs : ∀ arc ∈ arcs, IsWeight arc.weight)
    {total : W}
    (hTotal : IsCost total)
    (route : List NodeId) :
    IsCost (addWeights arcs total route) := by
  induction route generalizing total with
  | nil => exact hTotal
  | cons n route ih =>
      rcases route with _ | ⟨m, route⟩
      · exact hTotal
      · rw [addWeights]
        exact ih (hScale.isCost_add hTotal
          (hScale.isWeight_lightestArc hArcs n m))

theorem IsScale.isCost_weightAlong
    (hScale : IsScale value IsCost IsWeight)
    (hArcs : ∀ arc ∈ arcs, IsWeight arc.weight)
    (route : List NodeId) :
    IsCost (weightAlong arcs route) :=
  hScale.isCost_addWeights hArcs hScale.isCost_zero route

end Weighing

end DotLang
