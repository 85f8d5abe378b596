import DotLang.Proofs.Route.Lookups
import DotLang.Proofs.SpanningForest.Lookups

/-
  This file proves that in a reachable registry no question, text
  or search ever looks up what is not there, and that each ends.

  Questions, texts and searches are compared with the ones that
  have lookups that may fail, and loops without a bound.  If those
  have a result, all handles and places that are met are in range.

  Key definitions include:
    * `Registry.AnswersInRange`

  Key theorems include:
    * `Registry.answersInRange_of_operates`
-/

------------------------------------------------------------
-- Answers
------------------------------------------------------------

namespace DotLang

namespace Registry

variable {F : Factory} {r : Registry F}

/-
  All that is asked about graphs and nodes that are there has an
  answer.  The lookups behind it are in range:

    * those of graphs, nodes and edges, all over;
    * in searches for routes, the cost of a candidate that is
      served, and the predecessors from the target back to the
      source;
    * in spanning forests, the places of the ends of an edge, the
      parents and ranks of elements of the partition, and the
      copies of nodes.
-/
structure AnswersInRange (r : Registry F) : Prop where
  subgraphs :
    ∀ g : GraphId,
      r.HasGraph g → r.subgraphs? g = some (r.subgraphs g)
  findEdge :
    ∀ tail head : NodeId,
      r.HasNode tail →
        r.HasNode head →
        r.seekEdge? tail head = some (r.findEdge? tail head)
  toDot :
    ∀ g : GraphId, r.HasGraph g → r.toDot? g = some (r.toDot g)
  toCsv :
    ∀ g : GraphId, r.HasGraph g → r.toCsv? g = some (r.toCsv g)
  trace :
    ∀ g : GraphId, r.HasGraph g → r.trace? g = some (r.trace g)
  shortestRoute :
    ∀ (g : GraphId) (source target : NodeId),
      r.HasGraph g →
        r.shortestRoute? g source target =
          some
            (r.shortestRoute g source target,
              r.routeJournal g source target)
  lightestRoute :
    ∀ (g : GraphId) (source target : NodeId),
      r.HasGraph g →
        r.lightestRoute? g source target =
          some
            (r.lightestRoute g source target,
              r.routeJournal g source target)
  routeWeight :
    ∀ (g : GraphId) (route : List NodeId),
      r.HasGraph g →
        r.routeWeight? g route =
          some (r.routeWeight g route, r.arcsJournal g)
  minimumSpanningTree :
    ∀ g : GraphId,
      r.HasGraph g →
        r.minimumSpanningTree? g =
          some (r.minimumSpanningTree g, r.spanningForestJournal g)

theorem IsConsistent.answersInRange
    (h : r.IsConsistent) :
    r.AnswersInRange where
  subgraphs _ hg := h.isForest.subgraphs?_eq hg
  findEdge _ _ hTail hHead := h.seekEdge?_eq hTail hHead
  toDot _ hg := h.toDot?_eq hg
  toCsv _ hg := h.toCsv?_eq hg
  trace _ hg := h.trace?_eq hg
  shortestRoute _ source target hg :=
    h.shortestRoute?_eq hg source target
  lightestRoute _ source target hg :=
    h.lightestRoute?_eq hg source target
  routeWeight _ route hg := h.routeWeight?_eq hg route
  minimumSpanningTree _ hg := h.minimumSpanningTree?_eq hg

/-
  Whatever texts are read and whatever steps are taken between
  them, no lookup fails and no loop goes on for ever.
-/
theorem answersInRange_of_operates
    (factory : F.State)
    (options : Options)
    (hOperates : Operates (.empty factory options) r) :
    r.AnswersInRange :=
  hOperates.isConsistent.answersInRange

/-
  An edge is added by hand between nodes that two subgraphs own.
  The way along it is the lightest one, although there is a
  negative weight on the other way, which counts as one.
-/
theorem answersInRange_of_shortcut :
    let r : Registry .plain :=
      ((empty () {}).load
        ("digraph g \x7b subgraph a \x7b " ++
          "x -> y [weight=-2] \x7d subgraph b \x7b " ++
          "y -> z [weight=3] \x7d \x7d")).registry
    let s := (r.addEdge ⟨1⟩ ⟨0⟩ ⟨2⟩ .empty).2
    s.AnswersInRange ∧
      s.subgraphs? ⟨0⟩ = some [⟨1⟩, ⟨2⟩] ∧
      s.seekEdge? ⟨2⟩ ⟨0⟩ = some none ∧
      (s.lightestRoute? ⟨0⟩ ⟨0⟩ ⟨2⟩).map Prod.fst =
        some [⟨0⟩, ⟨2⟩] := by
  intro r s
  have hSource : r.HasNode ⟨0⟩ ∧ r.HasNode ⟨2⟩ := by
    decide +kernel
  have hGraph : r.HasGraph ⟨1⟩ := by
    decide +kernel
  have hOperates :
      Operates (empty () {} : Registry .plain) s :=
    .step
      (.addEdge r ⟨1⟩ ⟨0⟩ ⟨2⟩ .empty hGraph hSource.1 hSource.2)
      (.load _ .none)
  have hAnswers :=
    answersInRange_of_operates (F := .plain) () {} hOperates
  have hg : s.HasGraph ⟨0⟩ := by
    decide +kernel
  have hEnds : s.HasNode ⟨2⟩ ∧ s.HasNode ⟨0⟩ := by
    decide +kernel
  refine ⟨hAnswers, ?_, ?_, ?_⟩
  · rw [hAnswers.subgraphs ⟨0⟩ hg]
    decide +kernel
  · rw [hAnswers.findEdge ⟨2⟩ ⟨0⟩ hEnds.1 hEnds.2]
    decide +kernel
  · rw [hAnswers.lightestRoute ⟨0⟩ ⟨0⟩ ⟨2⟩ hg]
    decide +kernel

end Registry

end DotLang
