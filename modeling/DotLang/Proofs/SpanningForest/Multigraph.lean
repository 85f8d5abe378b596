import Mathlib.Data.List.Nodup
import Mathlib.Data.List.Perm.Subperm
import Mathlib.Logic.Relation
import Mathlib.Tactic.Choose

/-
  This file defines what edges connect and when they close no
  cycle.  There may be loops and parallel edges, and edges have
  no direction.

  As long as there is no cycle, each edge makes two components
  one, so that edges and components are as many as nodes.

  Key definitions include:
    * `Connects`
    * `Trail`
    * `IsAcyclic`
    * `IsTransversal`

  Key theorems include:
    * `connects_cons_iff`
    * `isAcyclic_cons_iff`
    * `exists_isTransversal`
    * `IsTransversal.length_le`
-/

------------------------------------------------------------
-- Connected Nodes
------------------------------------------------------------

namespace DotLang

section Multigraphs

variable {ε ν : Type} {ends : ε → ν × ν}
variable {S T : List ε} {e : ε} {a b c : ν}

/- Edges connect two nodes, possibly by way of others. -/
def Connects (ends : ε → ν × ν) (S : List ε) : ν → ν → Prop :=
  Relation.EqvGen fun a b => ∃ e ∈ S, ends e = (a, b)

namespace Connects

theorem refl : Connects ends S a a :=
  Relation.EqvGen.refl a

theorem symm
    (h : Connects ends S a b) :
    Connects ends S b a :=
  Relation.EqvGen.symm _ _ h

theorem trans
    (h : Connects ends S a b)
    (h' : Connects ends S b c) :
    Connects ends S a c :=
  Relation.EqvGen.trans _ _ _ h h'

theorem of_mem
    (he : e ∈ S) :
    Connects ends S (ends e).1 (ends e).2 :=
  .rel _ _ ⟨e, he, rfl⟩

/- Connected ends connect whatever their edges connect. -/
theorem of_ends
    (hEnds : ∀ e ∈ S, Connects ends T (ends e).1 (ends e).2)
    (h : Connects ends S a b) :
    Connects ends T a b := by
  induction h with
  | rel a b hEdge =>
      rcases hEdge with ⟨e, he, hEq⟩
      have hJoined := hEnds e he
      rwa [hEq] at hJoined
  | refl a => exact refl
  | symm a b _ ih => exact ih.symm
  | trans a b c _ _ ih ih' => exact ih.trans ih'

theorem mono
    (hSub : S ⊆ T)
    (h : Connects ends S a b) :
    Connects ends T a b :=
  h.of_ends fun _ he => of_mem (hSub he)

theorem eq_of_nil
    (h : Connects ends [] a b) :
    a = b := by
  induction h with
  | rel a b hEdge =>
      rcases hEdge with ⟨e, he, -⟩
      cases he
  | refl a => rfl
  | symm a b _ ih => exact ih.symm
  | trans a b c _ _ ih ih' => exact ih.trans ih'

end Connects

/- One more edge connects what its ends are connected to. -/
theorem connects_cons_iff :
    Connects ends (e :: S) a b ↔
      Connects ends S a b ∨
        Connects ends S a (ends e).1 ∧
          Connects ends S b (ends e).2 ∨
        Connects ends S a (ends e).2 ∧
          Connects ends S b (ends e).1 := by
  constructor
  · intro h
    induction h with
    | rel a b hEdge =>
        rcases hEdge with ⟨d, hd, hEq⟩
        rcases List.mem_cons.mp hd with rfl | hd
        · rw [hEq]
          exact .inr (.inl ⟨.refl, .refl⟩)
        · exact .inl (.rel _ _ ⟨d, hd, hEq⟩)
    | refl a => exact .inl .refl
    | symm a b _ ih =>
        rcases ih with h | ⟨ha, hb⟩ | ⟨ha, hb⟩
        · exact .inl h.symm
        · exact .inr (.inr ⟨hb, ha⟩)
        · exact .inr (.inl ⟨hb, ha⟩)
    | trans a b c _ _ ih ih' =>
        rcases ih with h | ⟨ha, hb⟩ | ⟨ha, hb⟩
        · rcases ih' with h' | ⟨hb', hc⟩ | ⟨hb', hc⟩
          · exact .inl (h.trans h')
          · exact .inr (.inl ⟨h.trans hb', hc⟩)
          · exact .inr (.inr ⟨h.trans hb', hc⟩)
        · rcases ih' with h' | ⟨hb', hc⟩ | ⟨hb', hc⟩
          · exact .inr (.inl ⟨ha, h'.symm.trans hb⟩)
          · exact .inr (.inl ⟨ha, hc⟩)
          · exact .inl (ha.trans hc.symm)
        · rcases ih' with h' | ⟨hb', hc⟩ | ⟨hb', hc⟩
          · exact .inr (.inr ⟨ha, h'.symm.trans hb⟩)
          · exact .inl (ha.trans hc.symm)
          · exact .inr (.inr ⟨ha, hc⟩)
  · have hKeep :
        ∀ {x y : ν},
          Connects ends S x y → Connects ends (e :: S) x y :=
      fun h => h.mono (List.subset_cons_self e S)
    have hEdge : Connects ends (e :: S) (ends e).1 (ends e).2 :=
      .of_mem List.mem_cons_self
    rintro (h | ⟨ha, hb⟩ | ⟨ha, hb⟩)
    · exact hKeep h
    · exact ((hKeep ha).trans hEdge).trans (hKeep hb).symm
    · exact ((hKeep ha).trans hEdge.symm).trans (hKeep hb).symm

------------------------------------------------------------
-- Trails and Cycles
------------------------------------------------------------

/- The ends of an edge, in one order or the other. -/
def JoinsEnds (ends : ε → ν × ν) (e : ε) (a b : ν) : Prop :=
  ends e = (a, b) ∨ ends e = (b, a)

/- A walk along edges, in whatever direction. -/
inductive Trail (ends : ε → ν × ν) : ν → List ε → ν → Prop where
| nil (a : ν) : Trail ends a [] a
| cons
    {a b c : ν}
    {e : ε}
    {es : List ε}
    (hEnds : JoinsEnds ends e a b)
    (hRest : Trail ends b es c) :
    Trail ends a (e :: es) c

/- No edges lead from a node back to it, each of them once. -/
def IsAcyclic (ends : ε → ν × ν) (S : List ε) : Prop :=
  ∀ (a : ν) (es : List ε),
    Trail ends a es a → es.Nodup → es ⊆ S → es = []

theorem JoinsEnds.symm
    (h : JoinsEnds ends e a b) :
    JoinsEnds ends e b a :=
  Or.symm h

theorem JoinsEnds.connects
    (h : JoinsEnds ends e a b)
    (he : e ∈ S) :
    Connects ends S a b := by
  have hEnds : Connects ends S (ends e).1 (ends e).2 :=
    .of_mem he
  rcases h with hEq | hEq
  · rwa [hEq] at hEnds
  · rw [hEq] at hEnds
    exact hEnds.symm

namespace Trail

variable {xs ys es : List ε}

theorem connects
    (h : Trail ends a es b)
    (hSub : es ⊆ S) :
    Connects ends S a b := by
  induction h with
  | nil a => exact .refl
  | cons hEnds _ ih =>
      rw [List.cons_subset] at hSub
      exact (hEnds.connects hSub.1).trans (ih hSub.2)

theorem append
    (h : Trail ends a xs b)
    (h' : Trail ends b ys c) :
    Trail ends a (xs ++ ys) c := by
  induction h with
  | nil a => exact h'
  | cons hEnds _ ih => exact .cons hEnds (ih h')

theorem split
    (h : Trail ends a (xs ++ ys) c) :
    ∃ b, Trail ends a xs b ∧ Trail ends b ys c := by
  induction xs generalizing a with
  | nil => exact ⟨a, .nil a, h⟩
  | cons x xs ih =>
      cases h with
      | cons hEnds hRest =>
          rcases ih hRest with ⟨b, hLeft, hRight⟩
          exact ⟨b, .cons hEnds hLeft, hRight⟩

theorem reverse
    (h : Trail ends a es b) :
    Trail ends b es.reverse a := by
  induction h with
  | nil a => exact .nil a
  | cons hEnds _ ih =>
      rw [List.reverse_cons]
      exact ih.append (.cons hEnds.symm (.nil _))

/- An edge that is used again makes a shorter way. -/
theorem exists_nodup
    (h : Trail ends a es b) :
    ∃ es', Trail ends a es' b ∧ es'.Nodup ∧ es' ⊆ es := by
  induction h with
  | nil a => exact ⟨[], .nil a, List.nodup_nil, List.Subset.refl _⟩
  | @cons a b c e es hEnds _ ih =>
      rcases ih with ⟨es', hTrail, hNodup, hSub⟩
      have hSub' : es' ⊆ e :: es := List.subset_cons_of_subset e hSub
      by_cases he : e ∈ es'
      · rcases List.mem_iff_append.mp he with ⟨xs, ys, rfl⟩
        rcases hTrail.split with ⟨p, hBefore, hBehind⟩
        rcases hBehind with _ | ⟨hAgain, hRest⟩
        have hShort := (List.nodup_append.mp hNodup).2.1
        rcases List.append_subset.mp hSub' with ⟨-, hSubY⟩
        -- the second time the edge leads from one end or the other
        have hCases :
            Trail ends a (e :: ys) c ∨ Trail ends a ys c := by
          rcases hEnds with hEq | hEq
          · rcases hAgain with hEq' | hEq'
            · rw [hEq, Prod.mk.injEq] at hEq'
              rcases hEq' with ⟨-, rfl⟩
              exact .inl (.cons (.inl hEq) hRest)
            · rw [hEq, Prod.mk.injEq] at hEq'
              rcases hEq' with ⟨rfl, -⟩
              exact .inr hRest
          · rcases hAgain with hEq' | hEq'
            · rw [hEq, Prod.mk.injEq] at hEq'
              rcases hEq' with ⟨-, rfl⟩
              exact .inr hRest
            · rw [hEq, Prod.mk.injEq] at hEq'
              rcases hEq' with ⟨rfl, -⟩
              exact .inl (.cons (.inr hEq) hRest)
        rcases hCases with hWay | hWay
        · exact ⟨e :: ys, hWay, hShort, hSubY⟩
        · exact ⟨ys, hWay, (List.nodup_cons.mp hShort).2,
            (List.cons_subset.mp hSubY).2⟩
      · exact ⟨e :: es', .cons hEnds hTrail,
          List.nodup_cons.mpr ⟨he, hNodup⟩,
          List.cons_subset_cons e hSub⟩

end Trail

theorem Connects.exists_trail
    (h : Connects ends S a b) :
    ∃ es, Trail ends a es b ∧ es.Nodup ∧ es ⊆ S := by
  suffices hAny : ∃ es, Trail ends a es b ∧ es ⊆ S by
    rcases hAny with ⟨es, hTrail, hSub⟩
    rcases hTrail.exists_nodup with ⟨es', hTrail', hNodup, hSub'⟩
    exact ⟨es', hTrail', hNodup, List.Subset.trans hSub' hSub⟩
  induction h with
  | rel a b hEdge =>
      rcases hEdge with ⟨e, he, hEq⟩
      exact ⟨[e], .cons (.inl hEq) (.nil b), by simpa using he⟩
  | refl a => exact ⟨[], .nil a, List.nil_subset S⟩
  | symm a b _ ih =>
      rcases ih with ⟨es, hTrail, hSub⟩
      exact ⟨es.reverse, hTrail.reverse,
        fun e he => hSub (List.mem_reverse.mp he)⟩
  | trans a b c _ _ ih ih' =>
      rcases ih with ⟨xs, hTrail, hSub⟩
      rcases ih' with ⟨ys, hTrail', hSub'⟩
      exact ⟨xs ++ ys, hTrail.append hTrail',
        List.append_subset.mpr ⟨hSub, hSub'⟩⟩

theorem isAcyclic_nil : IsAcyclic ends ([] : List ε) :=
  fun _ _ _ _ hSub => List.subset_nil.mp hSub

theorem IsAcyclic.mono
    (h : IsAcyclic ends T)
    (hSub : S ⊆ T) :
    IsAcyclic ends S :=
  fun a es hTrail hNodup hIn =>
    h a es hTrail hNodup (List.Subset.trans hIn hSub)

/-
  Edges close no cycle if others do not, to which they correspond
  one by one, along with their ends.
-/
theorem IsAcyclic.of_map
    {ε' ν' : Type}
    {ends' : ε' → ν' × ν'}
    {S' : List ε'}
    (f : ν' → ν)
    (k : ε' → ε)
    (hEnds :
      ∀ e ∈ S', ends (k e) = (f (ends' e).1, f (ends' e).2))
    (hInj : ∀ d ∈ S', ∀ e ∈ S', k d = k e → d = e)
    (hAcyclic : IsAcyclic ends (S'.map k)) :
    IsAcyclic ends' S' := by
  have hTrail :
      ∀ {a b : ν'} {es : List ε'},
        Trail ends' a es b →
          es ⊆ S' → Trail ends (f a) (es.map k) (f b) := by
    intro a b es h hSub
    induction h with
    | nil a => exact .nil (f a)
    | cons hJoins _ ih =>
        rw [List.cons_subset] at hSub
        refine .cons ?_ (ih hSub.2)
        rcases hJoins with hEq | hEq
        · exact .inl (by rw [hEnds _ hSub.1, hEq])
        · exact .inr (by rw [hEnds _ hSub.1, hEq])
  intro a es h hNodup hSub
  have hNodup' : (es.map k).Nodup :=
    hNodup.map_on fun d hd e he => hInj d (hSub hd) e (hSub he)
  exact List.map_eq_nil_iff.mp
    (hAcyclic (f a) (es.map k) (hTrail h hSub) hNodup'
      (List.map_subset k hSub))

/- A new edge closes a cycle exactly if its ends are connected. -/
theorem isAcyclic_cons_iff
    (hNew : e ∉ S) :
    IsAcyclic ends (e :: S) ↔
      IsAcyclic ends S ∧
        ¬ Connects ends S (ends e).1 (ends e).2 := by
  constructor
  · intro hAcyclic
    refine ⟨hAcyclic.mono (List.subset_cons_self e S), ?_⟩
    intro hConnects
    rcases hConnects.symm.exists_trail with ⟨es, hTrail, hNodup, hSub⟩
    have hNil := hAcyclic _ _ (.cons (.inl rfl) hTrail)
      (List.nodup_cons.mpr ⟨fun he => hNew (hSub he), hNodup⟩)
      (List.cons_subset_cons e hSub)
    cases hNil
  · rintro ⟨hAcyclic, hApart⟩ a es hTrail hNodup hSub
    by_cases he : e ∈ es
    · rcases List.mem_iff_append.mp he with ⟨xs, ys, rfl⟩
      rcases hTrail.split with ⟨b, hBefore, hBehind⟩
      rcases hBehind with _ | ⟨hEnds, hRest⟩
      rename_i c
      -- the rest of the cycle connects the ends of the edge
      have hOnce := (List.nodup_middle.mp hNodup)
      rw [List.nodup_cons] at hOnce
      have hRestSub : ys ++ xs ⊆ S := by
        intro d hd
        have hd' : d ∈ xs ++ ys := by
          rw [List.mem_append] at hd ⊢
          exact hd.symm
        have hIn : d ∈ e :: S := by
          apply hSub
          rw [List.mem_append] at hd' ⊢
          exact hd'.imp_right (List.mem_cons_of_mem e)
        rcases List.mem_cons.mp hIn with rfl | hIn
        · exact absurd hd' hOnce.1
        · exact hIn
      have hAround := (hRest.append hBefore).connects hRestSub
      refine absurd ?_ hApart
      rcases hEnds with hEq | hEq
      · rw [hEq]
        exact hAround.symm
      · rw [hEq]
        exact hAround
    · apply hAcyclic a es hTrail hNodup
      intro d hd
      rcases List.mem_cons.mp (hSub hd) with rfl | hIn
      · exact absurd hd he
      · exact hIn

/- Without edges that close cycles the others connect as much. -/
theorem exists_isAcyclic
    (ends : ε → ν × ν)
    (S : List ε) :
    ∃ A : List ε,
      A.Sublist S ∧
        A.Nodup ∧
        IsAcyclic ends A ∧
        ∀ a b, Connects ends A a b ↔ Connects ends S a b := by
  induction S with
  | nil =>
      exact ⟨[], List.Sublist.refl _, List.nodup_nil, isAcyclic_nil,
        fun _ _ => Iff.rfl⟩
  | cons e S ih =>
      rcases ih with ⟨A, hSub, hNodup, hAcyclic, hConnects⟩
      by_cases hEnds : Connects ends A (ends e).1 (ends e).2
      · refine ⟨A, hSub.cons e, hNodup, hAcyclic, fun a b => ⟨?_, ?_⟩⟩
        · intro h
          exact h.mono (hSub.cons e).subset
        · intro h
          apply h.of_ends
          intro d hd
          rcases List.mem_cons.mp hd with rfl | hd
          · exact hEnds
          · exact (hConnects _ _).mpr (.of_mem hd)
      · have hNew : e ∉ A := fun he => hEnds (.of_mem he)
        refine ⟨e :: A, hSub.cons_cons e,
          List.nodup_cons.mpr ⟨hNew, hNodup⟩,
          (isAcyclic_cons_iff hNew).mpr ⟨hAcyclic, hEnds⟩, ?_⟩
        intro a b
        simp only [connects_cons_iff, hConnects]

------------------------------------------------------------
-- Components
------------------------------------------------------------

/- One node of each component of a list of nodes. -/
structure IsTransversal
    (ends : ε → ν × ν)
    (S : List ε)
    (N reps : List ν) : Prop where
  nodup : reps.Nodup
  subset : reps ⊆ N
  apart :
    ∀ {a b}, a ∈ reps → b ∈ reps → Connects ends S a b → a = b
  covers : ∀ {n}, n ∈ N → ∃ a ∈ reps, Connects ends S n a

variable {N reps : List ν}

theorem isTransversal_nil
    (hN : N.Nodup) :
    IsTransversal ends [] N N where
  nodup := hN
  subset := List.Subset.refl N
  apart _ _ h := h.eq_of_nil
  covers hn := ⟨_, hn, .refl⟩

/- An edge between two components makes one of them. -/
theorem IsTransversal.cons
    (h : IsTransversal ends S N reps)
    (hEnds : (ends e).1 ∈ N ∧ (ends e).2 ∈ N)
    (hApart : ¬ Connects ends S (ends e).1 (ends e).2) :
    ∃ reps',
      IsTransversal ends (e :: S) N reps' ∧
        reps'.length + 1 = reps.length := by
  classical
  rcases h.covers hEnds.1 with ⟨u, hu, hFirst⟩
  rcases h.covers hEnds.2 with ⟨v, hv, hSecond⟩
  have hEdge : Connects ends (e :: S) (ends e).1 (ends e).2 :=
    .of_mem List.mem_cons_self
  have hKeep :
      ∀ {x y : ν},
        Connects ends S x y → Connects ends (e :: S) x y :=
    fun h => h.mono (List.subset_cons_self e S)
  refine ⟨reps.erase v, ⟨h.nodup.erase v, ?_, ?_, ?_⟩, ?_⟩
  · exact List.Subset.trans List.erase_subset h.subset
  · intro a b ha hb hJoined
    rw [h.nodup.mem_erase_iff] at ha hb
    -- only one of the two may be joined to the second end
    have hOther :
        ∀ {x : ν}, x ∈ reps → x ≠ v → ¬ Connects ends S x (ends e).2 :=
      fun hx hNe hTo => hNe (h.apart hx hv (hTo.trans hSecond))
    rcases connects_cons_iff.mp hJoined with hOld | ⟨-, hB⟩ | ⟨hA, -⟩
    · exact h.apart ha.2 hb.2 hOld
    · exact absurd hB (hOther hb.2 hb.1)
    · exact absurd hA (hOther ha.2 ha.1)
  · intro n hn
    rcases h.covers hn with ⟨a, ha, hTo⟩
    by_cases hEq : a = v
    · subst hEq
      refine ⟨u, ?_, ?_⟩
      · refine h.nodup.mem_erase_iff.mpr ⟨?_, hu⟩
        rintro rfl
        exact hApart (hFirst.trans hSecond.symm)
      · exact (((hKeep hTo).trans (hKeep hSecond).symm).trans
          hEdge.symm).trans (hKeep hFirst)
    · exact ⟨a, h.nodup.mem_erase_iff.mpr ⟨hEq, ha⟩, hKeep hTo⟩
  · have hPos := List.length_pos_of_mem hv
    rw [List.length_erase_of_mem hv]
    omega

/- Without cycles, edges and components are as many as nodes. -/
theorem exists_isTransversal
    (hN : N.Nodup)
    (hS : S.Nodup)
    (hAcyclic : IsAcyclic ends S)
    (hEnds : ∀ e ∈ S, (ends e).1 ∈ N ∧ (ends e).2 ∈ N) :
    ∃ reps,
      IsTransversal ends S N reps ∧
        S.length + reps.length = N.length := by
  induction S with
  | nil => exact ⟨N, isTransversal_nil hN, Nat.zero_add _⟩
  | cons e S ih =>
      rw [List.nodup_cons] at hS
      rcases (isAcyclic_cons_iff hS.1).mp hAcyclic with
        ⟨hAcyclic', hApart⟩
      rcases ih hS.2 hAcyclic'
        (fun d hd => hEnds d (List.mem_cons_of_mem e hd)) with
        ⟨reps, hReps, hLength⟩
      rcases hReps.cons (hEnds e List.mem_cons_self) hApart with
        ⟨reps', hReps', hLength'⟩
      refine ⟨reps', hReps', ?_⟩
      rw [List.length_cons]
      omega

/- What connects more has fewer components. -/
theorem IsTransversal.length_le
    {reps' : List ν}
    (h : IsTransversal ends S N reps)
    (h' : IsTransversal ends T N reps')
    (hMore : ∀ {a b}, Connects ends S a b → Connects ends T a b) :
    reps'.length ≤ reps.length := by
  have hCovers :
      ∀ b, b ∈ reps' → ∃ a, a ∈ reps ∧ Connects ends S b a := by
    intro b hb
    exact h.covers (h'.subset hb)
  choose! f hf using hCovers
  have hNodup : (reps'.map f).Nodup := by
    apply h'.nodup.map_on
    intro a ha b hb hEq
    have hA := (hf a ha).2
    rw [hEq] at hA
    exact h'.apart ha hb (hMore (hA.trans (hf b hb).2.symm))
  have hSub : reps'.map f ⊆ reps := by
    intro a ha
    rcases List.mem_map.mp ha with ⟨b, hb, rfl⟩
    exact (hf b hb).1
  have hLe := (hNodup.subperm hSub).length_le
  rwa [List.length_map] at hLe

/-
  Edges without a cycle are not more than any edges without a
  cycle that connect their ends.
-/
theorem IsAcyclic.length_le
    (hN : N.Nodup)
    (hS : S.Nodup)
    (hT : T.Nodup)
    (hAcyclic : IsAcyclic ends S)
    (hAcyclic' : IsAcyclic ends T)
    (hEnds : ∀ e ∈ S, (ends e).1 ∈ N ∧ (ends e).2 ∈ N)
    (hEnds' : ∀ e ∈ T, (ends e).1 ∈ N ∧ (ends e).2 ∈ N)
    (hMore : ∀ e ∈ S, Connects ends T (ends e).1 (ends e).2) :
    S.length ≤ T.length := by
  rcases exists_isTransversal hN hS hAcyclic hEnds with
    ⟨reps, hReps, hLength⟩
  rcases exists_isTransversal hN hT hAcyclic' hEnds' with
    ⟨reps', hReps', hLength'⟩
  have hLe := hReps.length_le hReps' fun h => h.of_ends hMore
  omega

end Multigraphs

end DotLang
