import DotLang.Proofs.Route.Exactness
import DotLang.Proofs.Route.Lightest
import DotLang.Proofs.Route.Width
import DotLang.Registry.Load

/-
  This file proves that the route with the least weight between
  two nodes of a graph is one.

  Weights are compared as they are added up, which is with
  rounding.  The route is the lightest one by exact weights too,
  if these are added up exactly, or if 53 bits hold them.

  Key definitions include:
    * `Registry.Joins`
    * `Registry.exactLightestRoute`
    * `Registry.exactRouteWeight`
    * `Registry.IsGrained`

  Key theorems include:
    * `Registry.isLightest_of_isGrained`
    * `Registry.lightestRoute_isLightest`
-/

------------------------------------------------------------
-- Edges that Join Nodes
------------------------------------------------------------

namespace DotLang

namespace Registry

variable {F : Factory} {W : Type}

/-
  An edge of a graph or inside it leads from one node to another:
  from its tail to its head, and back if it is undirected.
-/
def Joins
    (r : Registry F)
    (g : GraphId)
    (a b : NodeId) : Prop :=
  ∃ e ∈ r.allEdges g,
    ((r.edge e).tail = a ∧ (r.edge e).head = b) ∨
      ((r.edge e).directed = false ∧
        (r.edge e).head = a ∧
        (r.edge e).tail = b)

theorem leads_arcsBy
    (weigh : AttributeTable → W)
    (r : Registry F)
    (g : GraphId) :
    Leads (r.arcsBy weigh g) = r.Joins g := by
  funext a b
  apply propext
  constructor
  · rintro ⟨arc, hArc, rfl, rfl⟩
    rcases List.mem_flatMap.mp hArc with ⟨e, he, hMem⟩
    refine ⟨e, he, ?_⟩
    cases hDirected : (r.edge e).directed <;>
      simp only [Edge.arcsBy, hDirected] at hMem
    · rcases List.mem_pair.mp hMem with rfl | rfl
      · exact .inl ⟨rfl, rfl⟩
      · exact .inr ⟨rfl, rfl, rfl⟩
    · rw [List.mem_singleton.mp hMem]
      exact .inl ⟨rfl, rfl⟩
  · rintro ⟨e, he, hEnds⟩
    rcases hEnds with ⟨rfl, rfl⟩ | ⟨hDirected, rfl, rfl⟩
    · refine ⟨⟨_, _, weigh (r.edge e).attributes⟩,
        List.mem_flatMap.mpr ⟨e, he, ?_⟩, rfl, rfl⟩
      rw [Edge.arcsBy]
      split <;> exact List.mem_cons_self
    · refine ⟨⟨_, _, weigh (r.edge e).attributes⟩,
        List.mem_flatMap.mpr ⟨e, he, ?_⟩, rfl, rfl⟩
      rw [Edge.arcsBy, hDirected]
      exact List.mem_cons_of_mem _ List.mem_cons_self

/- The weight of an arc is that of some edge. -/
theorem exists_edge_of_mem_arcsBy
    {weigh : AttributeTable → W}
    {r : Registry F}
    {g : GraphId}
    {arc : Arc W}
    (hArc : arc ∈ r.arcsBy weigh g) :
    ∃ e ∈ r.allEdges g,
      arc.weight = weigh (r.edge e).attributes := by
  rcases List.mem_flatMap.mp hArc with ⟨e, he, hMem⟩
  refine ⟨e, he, ?_⟩
  rw [Edge.arcsBy] at hMem
  split at hMem
  · rw [List.mem_singleton.mp hMem]
  · rcases List.mem_pair.mp hMem with rfl | rfl <;> rfl

/- Arcs with tables of attributes can be weighed later. -/
theorem arcsBy_eq_map
    (weigh : AttributeTable → W)
    (r : Registry F)
    (g : GraphId) :
    r.arcsBy weigh g =
      (r.arcsBy id g).map (Arc.reweigh weigh) := by
  rw [arcsBy, arcsBy, List.map_flatMap]
  congr 1
  funext e
  rw [Edge.arcsBy, Edge.arcsBy]
  split <;> rfl

------------------------------------------------------------
-- Rounded Weights
------------------------------------------------------------

variable {r : Registry F} {g : GraphId} {source target : NodeId}

theorem isWeight_of_mem_arcs
    (arc : Arc Binary64)
    (hArc : arc ∈ r.arcs g) :
    Binary64.IsWeight arc.weight := by
  rcases exists_edge_of_mem_arcsBy hArc with ⟨e, -, hEq⟩
  rcases (r.edge e).attributes.exists_effectiveWeight with
    ⟨m, hm, -⟩
  exact ⟨m, hEq ▸ hm⟩

theorem isCost_routeWeight
    (r : Registry F)
    (g : GraphId)
    (route : List NodeId) :
    Binary64.IsCost (r.routeWeight g route) :=
  Binary64.isScale.isCost_weightAlong isWeight_of_mem_arcs route

theorem isLightest_lightestRoute
    (r : Registry F)
    (g : GraphId)
    (source target : NodeId) :
    IsLightest (r.Joins g) (r.routeWeight g) Binary64.AtMost
      source target (r.lightestRoute g source target) := by
  have h := isLightest_lightestAlong Binary64.isScale
    (isWeight_of_mem_arcs (r := r) (g := g)) source target
  rw [arcs, leads_arcsBy] at h
  exact
    { h with
      atMost := fun hNe other hOther =>
        Binary64.atMost_of_amount_le (r.isCost_routeWeight g _)
          (r.isCost_routeWeight g other) (h.atMost hNe other hOther) }

------------------------------------------------------------
-- Exact Weights
------------------------------------------------------------

/- The ways along the edges with their exact weights. -/
def exactArcs
    (r : Registry F)
    (g : GraphId) : List (Arc (WithTop ℚ)) :=
  r.arcsBy (fun t => (t.exactFee : WithTop ℚ)) g

/- The route that is found if weights are added up exactly. -/
def exactLightestRoute
    (r : Registry F)
    (g : GraphId)
    (source target : NodeId) : List NodeId :=
  lightestAlong (r.exactArcs g) source target

/- The exact weight of a route. -/
def exactRouteWeight
    (r : Registry F)
    (g : GraphId)
    (route : List NodeId) : WithTop ℚ :=
  weightAlong (r.exactArcs g) route

theorem nonneg_of_mem_exactArcs
    (arc : Arc (WithTop ℚ))
    (hArc : arc ∈ r.exactArcs g) :
    0 ≤ arc.weight := by
  rcases exists_edge_of_mem_arcsBy hArc with ⟨e, -, hEq⟩
  rcases (r.edge e).attributes.exists_effectiveWeight with
    ⟨m, -, hFee⟩
  rw [hEq, hFee]
  exact exactUnits_nonneg m

theorem isLightest_exactLightestRoute
    (r : Registry F)
    (g : GraphId)
    (source target : NodeId) :
    IsLightest (r.Joins g) (r.exactRouteWeight g) (· ≤ ·)
      source target (r.exactLightestRoute g source target) := by
  have h := isLightest_lightestAlong isScale_exact
    (nonneg_of_mem_exactArcs (r := r) (g := g)) source target
  rw [exactArcs, leads_arcsBy] at h
  exact h

------------------------------------------------------------
-- Weights that Are Not Rounded
------------------------------------------------------------

/- The weights of all edges are whole numbers of a unit. -/
def IsGrained
    (r : Registry F)
    (g : GraphId)
    (unit : ℚ) : Prop :=
  ∀ e ∈ r.allEdges g,
    ∃ i : Nat, (r.edge e).attributes.exactFee = i * unit

theorem agrees_routeWeight
    {k : Nat}
    (hk : ceiling k ≤ Binary64.limit)
    (hGrain : r.IsGrained g (exactUnits (2 ^ k)))
    (route : List NodeId) :
    Agrees k (r.routeWeight g route) (r.exactRouteWeight g route) := by
  let rounded := fun t : AttributeTable => effectiveWeight t.weight
  let unrounded := fun t : AttributeTable =>
    (t.exactFee : WithTop ℚ)
  have hFees :
      ∀ arc ∈ r.arcsBy id g,
        Agrees k (rounded arc.weight) (unrounded arc.weight) := by
    intro arc hArc
    rcases exists_edge_of_mem_arcsBy hArc with ⟨e, he, hEq⟩
    rcases hGrain e he with ⟨i, hi⟩
    rcases (r.edge e).attributes.exists_effectiveWeight with
      ⟨m, hm, hFee⟩
    rw [hEq]
    change Agrees k (effectiveWeight (r.edge e).attributes.weight)
      ((r.edge e).attributes.exactFee : WithTop ℚ)
    rw [hFee]
    refine ⟨m, hm, fun _ => ⟨?_, rfl⟩, fun hGe => ?_⟩
    · rw [hFee, ← exactUnits_mul] at hi
      exact Dvd.intro_left i (exactUnits_inj hi).symm
    · exact WithTop.coe_le_coe.mpr (exactUnits_le_iff.mpr hGe)
  have hLightest :=
    lightestArc_reweigh (Agrees k) rounded unrounded hFees
      (.infinite hk) fun h h' => by
        have hLighter := h.lighter h'
        simpa only [Scale.lt, decide_eq_true_eq] using hLighter
  have hBoth :=
    weightAlong_reweigh (Agrees k)
      (fun x y => Binary64.IsCost x ∧ Agrees k x y)
      rounded unrounded hLightest
      ⟨Binary64.isScale.isCost_zero, .zero k⟩
      (fun h h' =>
        ⟨Binary64.isScale.isCost_add h.1 h'.isWeight,
          h.2.add hk h.1 h'⟩)
      route
  rw [← arcsBy_eq_map, ← arcsBy_eq_map] at hBoth
  exact hBoth.2

/-
  A route is the lightest one by exact weights if these are whole
  numbers of a unit, and some walk weighs less than what 53 bits
  hold of it.
-/
theorem isLightest_of_isGrained
    {k : Nat}
    (hk : ceiling k ≤ Binary64.limit)
    (hGrain : r.IsGrained g (exactUnits (2 ^ k)))
    {walk : List NodeId}
    (hWalk : IsWalk (r.Joins g) source target walk)
    (hLight : r.exactRouteWeight g walk < exactUnits (ceiling k)) :
    IsLightest (r.Joins g) (r.exactRouteWeight g) (· ≤ ·)
      source target (r.lightestRoute g source target) := by
  have h := r.isLightest_lightestRoute g source target
  refine { h with atMost := fun hNe other hOther => ?_ }
  rcases agrees_routeWeight hk hGrain walk with ⟨n, hn, -, hLarge⟩
  have hBelow : n < ceiling k := by
    by_contra hAbove
    exact absurd hLight (hLarge (Nat.not_lt.mp hAbove)).not_gt
  rcases agrees_routeWeight hk hGrain
      (r.lightestRoute g source target) with ⟨m, hm, hSmall, -⟩
  have hLe : m ≤ n := (h.atMost hNe walk hWalk).le hm hn
  have hAny := agrees_routeWeight hk hGrain other
  rcases hAny.isWeight with ⟨j, hj⟩
  rw [(hSmall (Nat.lt_of_le_of_lt hLe hBelow)).2]
  exact hAny.exactUnits_le hj
    ((h.atMost hNe other hOther).le hm hj)
    (hLe.trans hBelow.le)

------------------------------------------------------------
-- Routes with the Least Weight
------------------------------------------------------------

theorem shortestRoute_eq_nil_iff
    (r : Registry F)
    (g : GraphId)
    (source target : NodeId) :
    r.shortestRoute g source target = [] ↔
      ¬ Relation.ReflTransGen (r.Joins g) source target := by
  rw [shortestRoute, shortestAlong_eq_nil_iff, arcs, leads_arcsBy]

theorem isWalk_shortestRoute
    (hNe : r.shortestRoute g source target ≠ []) :
    IsWalk (r.Joins g) source target
      (r.shortestRoute g source target) := by
  have hWalk := isWalk_shortestAlong hNe
  rwa [arcs, leads_arcsBy] at hWalk

/-
  The route that is found is a lightest one, and so is the one
  that is found if weights are added up exactly.  Both weigh at
  most what the route with the fewest edges does.

  The first one is a lightest one by exact weights too, if these
  are whole numbers of a unit of which 53 bits hold some walk.
-/
theorem lightestRoute_isLightest
    (r : Registry F)
    (g : GraphId)
    (source target : NodeId) :
    let light := r.lightestRoute g source target
    let exactLight := r.exactLightestRoute g source target
    let short := r.shortestRoute g source target
    IsLightest (r.Joins g) (r.routeWeight g) Binary64.AtMost
        source target light ∧
      IsLightest (r.Joins g) (r.exactRouteWeight g) (· ≤ ·)
        source target exactLight ∧
      (short = [] ↔ light = []) ∧
      (short = [] ↔ exactLight = []) ∧
      (short ≠ [] →
        IsWalk (r.Joins g) source target short ∧
          (r.routeWeight g light).AtMost (r.routeWeight g short) ∧
          r.exactRouteWeight g exactLight ≤
            r.exactRouteWeight g short) ∧
      ∀ (k : Nat) (walk : List NodeId),
        ceiling k ≤ Binary64.limit →
        r.IsGrained g (exactUnits (2 ^ k)) →
        IsWalk (r.Joins g) source target walk →
        r.exactRouteWeight g walk < exactUnits (ceiling k) →
          IsLightest (r.Joins g) (r.exactRouteWeight g) (· ≤ ·)
            source target light := by
  intro light exactLight short
  have hLight := r.isLightest_lightestRoute g source target
  have hExact := r.isLightest_exactLightestRoute g source target
  have hShort := r.shortestRoute_eq_nil_iff g source target
  refine ⟨hLight, hExact, hShort.trans hLight.eq_nil_iff.symm,
    hShort.trans hExact.eq_nil_iff.symm, fun hNe => ?_,
    fun k walk hk hGrain hWalk hBelow =>
      isLightest_of_isGrained hk hGrain hWalk hBelow⟩
  have hWalk := isWalk_shortestRoute hNe
  have hReach := exists_isWalk_iff.mp ⟨_, hWalk⟩
  exact ⟨hWalk,
    hLight.atMost
      (fun hNil => hLight.eq_nil_iff.mp hNil hReach) short hWalk,
    hExact.atMost
      (fun hNil => hExact.eq_nil_iff.mp hNil hReach) short hWalk⟩

/- The way with fewer edges is heavier. -/
def twoRoads : Registry .plain :=
  (Registry.load (.empty () {})
    "digraph \x7ba->b [weight=5] a->c c->b [weight=2.5]\x7d").registry

example : twoRoads.shortestRoute ⟨0⟩ ⟨0⟩ ⟨1⟩ = [⟨0⟩, ⟨1⟩] := by
  decide +kernel

theorem lightestRoute_twoRoads :
    let light := twoRoads.lightestRoute ⟨0⟩ ⟨0⟩ ⟨1⟩
    light = [⟨0⟩, ⟨2⟩, ⟨1⟩] ∧
      IsLightest (twoRoads.Joins ⟨0⟩)
        (twoRoads.exactRouteWeight ⟨0⟩) (· ≤ ·) ⟨0⟩ ⟨1⟩ light := by
  intro light
  have hLight : light = [⟨0⟩, ⟨2⟩, ⟨1⟩] := by
    decide +kernel +revert
  rcases twoRoads.lightestRoute_isLightest ⟨0⟩ ⟨0⟩ ⟨1⟩ with
    ⟨hRounded, -, -, -, -, hExact⟩
  have hNe : light ≠ [] := by
    rw [hLight]
    nofun
  -- all weights are multiples of one half
  have hGrain : twoRoads.IsGrained ⟨0⟩ (exactUnits (2 ^ 1073)) := by
    have hEdges :
        twoRoads.allEdges ⟨0⟩ = [⟨0⟩, ⟨1⟩, ⟨2⟩] := by
      decide +kernel
    rw [IsGrained, hEdges]
    simp only [List.forall_mem_cons]
    exact ⟨⟨10, by decide +kernel⟩, ⟨2, by decide +kernel⟩,
      ⟨5, by decide +kernel⟩, nofun⟩
  have hBelow :
      twoRoads.exactRouteWeight ⟨0⟩ light <
        exactUnits (ceiling 1073) := by
    rw [hLight]
    decide +kernel
  exact ⟨hLight,
    hExact 1073 light (by decide +kernel) hGrain
      (hRounded.isWalk hNe) hBelow⟩

end Registry

end DotLang
