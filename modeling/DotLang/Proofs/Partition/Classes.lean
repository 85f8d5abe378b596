import DotLang.Proofs.Partition
import Mathlib.Data.Setoid.Basic
import Mathlib.SetTheory.Cardinal.Finite

/-
  This file proves what partitions keep through any run of
  requests: their sets are the classes of the equivalence that
  the joined pairs generate, and they are counted right.

  The walks to a root and back are stated as loops of their own,
  without the bound that they run with.

  Key definitions include:
    * `Partition.Climbs`
    * `Partition.Compresses`
    * `Request`
    * `Partition.serveAll`
    * `Partition.Keeps`

  Key theorems include:
    * `Partition.IsRanked.climbs_root`
    * `Partition.IsRanked.compresses_find`
    * `Partition.card_roots_union`
    * `Partition.keeps_serveAll`
-/

------------------------------------------------------------
-- Loops
------------------------------------------------------------

namespace DotLang

namespace Partition

variable {p q : Partition} {x y : Nat}

/-
  The walk up from an element, which ends at one that is its own
  parent.  All elements on the way exist.
-/
inductive Climbs (p : Partition) : Nat → Nat → Prop where
| stop
    {x : Nat}
    (hx : x < p.size)
    (hTop : p.parentOf x = x) :
    Climbs p x x
| up
    {x root : Nat}
    (hx : x < p.size)
    (hBelow : p.parentOf x ≠ x)
    (hRest : Climbs p (p.parentOf x) root) :
    Climbs p x root

/-
  The walk up that hangs each element right under the root, and
  ends at one that is there already.
-/
inductive Compresses
    (root : Nat) : Partition → Nat → Partition → Prop where
| stop
    {p : Partition}
    {x : Nat}
    (hx : x < p.size)
    (hTop : p.parentOf x = root) :
    Compresses root p x p
| up
    {p q : Partition}
    {x : Nat}
    (hx : x < p.size)
    (hBelow : p.parentOf x ≠ root)
    (hRest :
      Compresses root (p.setParent x root) (p.parentOf x) q) :
    Compresses root p x q

theorem IsRanked.climbs_root
    (hp : p.IsRanked)
    (hx : x < p.size) :
    p.Climbs x (p.root x) := by
  induction x using hp.climb with
  | root x hSelf =>
      rw [root_of_parentOf_eq hSelf]
      exact .stop hx hSelf
  | step x hNe ih =>
      have hRest := ih (hp.parent_lt hx)
      rw [hp.root_parentOf] at hRest
      exact .up hx hNe hRest

/- Only elements of higher rank are met on the way up. -/
theorem IsRanked.compresses_compressWithin
    (hp : p.IsRanked)
    (hx : x < p.size)
    {bound : Nat}
    (hBound : p.above x ≤ bound) :
    Compresses (p.root x) p x
      (compressWithin (p.root x) bound p x) := by
  induction bound generalizing p x with
  | zero =>
      have hSelf : p.parentOf x = x := by
        by_contra hNe
        have hLt := hp.above_parentOf_lt hNe
        omega
      exact .stop hx (hSelf.trans (root_of_parentOf_eq hSelf).symm)
  | succ bound ih =>
      rw [compressWithin]
      by_cases hTop : p.parentOf x = p.root x
      · rw [if_pos hTop]
        exact .stop hx hTop
      · have hNe : p.parentOf x ≠ x := by
          intro hSelf
          exact hTop (hSelf.trans (root_of_parentOf_eq hSelf).symm)
        have hShort := hp.shortens_setParent hNe
        -- ranks stay, so what is above an element does too
        have hAbove :
            (p.setParent x (p.root x)).above (p.parentOf x) =
              p.above (p.parentOf x) := by
          simp only [above, rankOf, hShort.size, hShort.rank]
          congr
        have hLt := hp.above_parentOf_lt hNe
        have hRest := ih hShort.isRanked
          (hShort.size.symm ▸ hp.parent_lt hx)
          (hAbove.trans_le (by omega))
        rw [hShort.root, hp.root_parentOf] at hRest
        rw [if_neg hTop]
        exact .up hx hTop hRest

theorem IsRanked.compresses_find
    (hp : p.IsRanked)
    (hx : x < p.size) :
    Compresses (p.find x).1 p x (p.find x).2 :=
  hp.compresses_compressWithin hx (above_le_size p x)

------------------------------------------------------------
-- Roots
------------------------------------------------------------

/- The elements that stand for their sets. -/
def roots (p : Partition) : Finset Nat :=
  (Finset.range p.size).filter fun x => p.root x = x

theorem mem_roots :
    x ∈ p.roots ↔ x < p.size ∧ p.root x = x := by
  rw [roots, Finset.mem_filter, Finset.mem_range]

theorem IsRanked.root_mem_roots
    (hp : p.IsRanked)
    (hx : x < p.size) :
    p.root x ∈ p.roots :=
  mem_roots.mpr ⟨hp.root_lt hx, hp.root_root x⟩

/- The same links have the same elements on top. -/
theorem roots_congr
    (hParent : q.parent = p.parent) :
    q.roots = p.roots := by
  ext x
  rw [mem_roots, mem_roots, size, size, root_congr hParent, hParent]

theorem Shortens.roots
    (h : p.Shortens q) :
    q.roots = p.roots := by
  simp only [Partition.roots, h.size, h.root]

@[simp] theorem roots_singletons
    (n : Nat) :
    (singletons n).roots = Finset.range n := by
  ext x
  rw [mem_roots, root_singletons, Finset.mem_range]
  simp [singletons, size]

theorem IsRanked.parentOf_of_mem_roots
    (hp : p.IsRanked)
    (hx : x ∈ p.roots) :
    p.parentOf x = x := by
  rw [← (mem_roots.mp hx).2]
  exact hp.parentOf_root x

/- Linking two elements that stand for different sets. -/
theorem IsRanked.link_of_mem_roots
    {a b : Nat}
    (hp : p.IsRanked)
    (ha : a ∈ p.roots)
    (hb : b ∈ p.roots)
    (hNe : a ≠ b) :
    (p.link a b).IsRanked ∧
      (p.link a b).size = p.size ∧
      ∀ z,
        (p.link a b).root z =
          if p.root z = a ∨ p.root z = b then
            p.topOf a b
          else
            p.root z := by
  have hA := (mem_roots.mp ha).1
  have hB := (mem_roots.mp hb).1
  have hParentA := hp.parentOf_of_mem_roots ha
  have hParentB := hp.parentOf_of_mem_roots hb
  rcases link_isRanked hp hA hB hParentA hNe with
    ⟨hRanked, hSize, -⟩
  exact ⟨hRanked, hSize,
    root_link hp hA hB hParentA hParentB hNe⟩

/- The root that is linked under the other one is lost. -/
theorem roots_link
    {a b : Nat}
    (hp : p.IsRanked)
    (ha : a ∈ p.roots)
    (hb : b ∈ p.roots)
    (hNe : a ≠ b) :
    (p.link a b).roots =
      p.roots.erase (if p.topOf a b = a then b else a) := by
  rcases mem_roots.mp ha with ⟨hA, hRootA⟩
  rcases mem_roots.mp hb with ⟨hB, hRootB⟩
  rcases hp.link_of_mem_roots ha hb hNe with ⟨-, hSize, hRoot⟩
  ext z
  rw [Finset.mem_erase, mem_roots, mem_roots, hSize, hRoot]
  clear hRoot hSize
  rcases p.topOf_eq_or_eq a b with hTop | hTop
  · rw [hTop, if_pos rfl]
    grind
  · rw [hTop, if_neg (Ne.symm hNe)]
    grind

------------------------------------------------------------
-- Counting Sets
------------------------------------------------------------

/- There is one set less if two of them were joined. -/
theorem card_roots_union
    {a b : Nat}
    (hp : p.IsRanked)
    (ha : a < p.size)
    (hb : b < p.size) :
    (p.union a b).2.roots.card +
        (if p.root a = p.root b then 0 else 1) =
      p.roots.card := by
  rcases union_eq hp a b with ⟨q, hq, hEq⟩
  rw [hEq]
  by_cases hSame : p.root a = p.root b
  · rw [if_pos hSame, if_pos hSame, hq.roots, Nat.add_zero]
  · have hA : p.root a ∈ q.roots := by
      rw [hq.roots]
      exact hp.root_mem_roots ha
    have hB : p.root b ∈ q.roots := by
      rw [hq.roots]
      exact hp.root_mem_roots hb
    have hLost :
        (if q.topOf (p.root a) (p.root b) = p.root a then
          p.root b
        else
          p.root a) ∈ q.roots := by
      split
      · exact hB
      · exact hA
    have hLink := roots_link hq.isRanked hA hB hSame
    rw [if_neg hSame, if_neg hSame, ← hq.roots]
    have hCount :
        ({ q.link (p.root a) (p.root b) with
            count := q.count - 1 } : Partition).roots =
          (q.link (p.root a) (p.root b)).roots :=
      roots_congr rfl
    rw [hCount, hLink, Finset.card_erase_add_one hLost]

theorem count_union
    (hp : p.IsRanked)
    (a b : Nat) :
    (p.union a b).2.count =
      p.count - if p.root a = p.root b then 0 else 1 := by
  rcases union_eq hp a b with ⟨q, hq, hEq⟩
  rw [hEq]
  by_cases hSame : p.root a = p.root b
  · rw [if_pos hSame, if_pos hSame, hq.count, Nat.sub_zero]
  · rw [if_neg hSame, if_neg hSame, hq.count]

end Partition

------------------------------------------------------------
-- Requests
------------------------------------------------------------

/- What can be asked of a partition of the numbers below `n`. -/
inductive Request (n : Nat) where
| find (x : Fin n)
| same (a b : Fin n)
| union (a b : Fin n)
deriving DecidableEq, Repr

namespace Partition

variable {n : Nat} {p : Partition}

/- The partition after a request. -/
def serve (p : Partition) : Request n → Partition
| .find x => (p.find x).2
| .same a b => (p.same a b).2
| .union a b => (p.union a b).2

/- The partition after requests, from single elements on. -/
def serveAll (requests : List (Request n)) : Partition :=
  requests.foldl serve (singletons n)

theorem serveAll_concat
    (requests : List (Request n))
    (request : Request n) :
    serveAll (requests ++ [request]) =
      (serveAll requests).serve request :=
  List.foldl_concat serve (singletons n) request requests

/- The equivalence that the joined pairs generate. -/
def classes (requests : List (Request n)) : Setoid (Fin n) :=
  Relation.EqvGen.setoid fun a b => Request.union a b ∈ requests

------------------------------------------------------------
-- Classes
------------------------------------------------------------

/- The sets of a partition are the classes of an equivalence. -/
structure HasClasses
    (p : Partition)
    (s : Setoid (Fin n)) : Prop where
  isRanked : p.IsRanked
  size : p.size = n
  root_eq_iff : ∀ a b : Fin n, p.root a = p.root b ↔ s a b
  count : p.count = p.roots.card

theorem hasClasses_singletons
    (n : Nat) :
    (singletons n).HasClasses (classes ([] : List (Request n))) where
  isRanked := isRanked_singletons n
  size := by simp [singletons, size]
  root_eq_iff a b := by
    rw [root_singletons, root_singletons, Fin.val_inj]
    constructor
    · rintro rfl
      exact .refl a
    · intro h
      induction h with
      | rel _ _ hMem => cases hMem
      | refl _ => rfl
      | symm _ _ _ ih => exact ih.symm
      | trans _ _ _ _ _ ih ih' => exact ih.trans ih'
  count := by
    rw [roots_singletons, Finset.card_range]
    rfl

theorem HasClasses.shortens
    {q : Partition}
    {s : Setoid (Fin n)}
    (h : p.HasClasses s)
    (hShort : p.Shortens q) :
    q.HasClasses s where
  isRanked := hShort.isRanked
  size := hShort.size.trans h.size
  root_eq_iff a b := by
    rw [hShort.root, hShort.root]
    exact h.root_eq_iff a b
  count := by
    rw [hShort.count, hShort.roots]
    exact h.count

/- A request without a pair changes no class. -/
theorem classes_append_of_ne
    (requests : List (Request n))
    {request : Request n}
    (hNe : ∀ a b, request ≠ .union a b) :
    classes (requests ++ [request]) = classes requests := by
  unfold classes
  congr
  funext a b
  have hNe' := (hNe a b).symm
  simp [hNe']

/- Joined classes are the least that hold the joined pair too. -/
theorem HasClasses.union
    {requests : List (Request n)}
    (h : p.HasClasses (classes requests))
    (a b : Fin n) :
    (p.union a b).2.HasClasses
      (classes (requests ++ [.union a b])) := by
  have ha : a < p.size := h.size.symm ▸ a.isLt
  have hb : b < p.size := h.size.symm ▸ b.isLt
  rcases union_isRanked h.isRanked ha hb with ⟨hRanked, hSize⟩
  have hRoot := root_union_eq_iff h.isRanked ha hb
  have hOld :
      ∀ {x y : Fin n},
        classes requests x y →
          classes (requests ++ [.union a b]) x y := by
    intro x y hxy
    induction hxy with
    | rel x y hMem => exact .rel x y (List.mem_append_left _ hMem)
    | refl x => exact .refl x
    | symm _ _ _ ih => exact ih.symm
    | trans _ _ _ _ _ ih ih' => exact ih.trans _ _ _ ih'
  have hPair : classes (requests ++ [.union a b]) a b :=
    .rel a b (List.mem_append_right _ List.mem_cons_self)
  refine ⟨hRanked, hSize.trans h.size, ?_, ?_⟩
  · intro x y
    constructor
    · intro hEq
      simp only [hRoot, h.root_eq_iff] at hEq
      rcases hEq with hxy | ⟨hxa, hyb⟩ | ⟨hxb, hya⟩
      · exact hOld hxy
      · exact ((hOld hxa).trans _ _ _ hPair).trans _ _ _
          ((hOld hyb).symm _ _)
      · exact ((hOld hxb).trans _ _ _ (hPair.symm _ _)).trans _ _ _
          ((hOld hya).symm _ _)
    · intro hxy
      induction hxy with
      | rel x y hMem =>
          rw [hRoot]
          rcases List.mem_append.mp hMem with hMem | hMem
          · exact .inl ((h.root_eq_iff x y).mpr (.rel x y hMem))
          · rw [List.mem_singleton, Request.union.injEq] at hMem
            rw [hMem.1, hMem.2]
            exact .inr (.inl ⟨rfl, rfl⟩)
      | refl x => rfl
      | symm _ _ _ ih => exact ih.symm
      | trans _ _ _ _ _ ih ih' => exact ih.trans ih'
  · have hCard := card_roots_union h.isRanked ha hb
    have hCount := h.count
    rw [count_union h.isRanked]
    omega

theorem HasClasses.serve
    {requests : List (Request n)}
    (h : p.HasClasses (classes requests))
    (request : Request n) :
    (p.serve request).HasClasses
      (classes (requests ++ [request])) := by
  cases request with
  | find x =>
      rw [classes_append_of_ne requests (by simp)]
      exact h.shortens (find_shortens h.isRanked x).2
  | same a b =>
      rw [classes_append_of_ne requests (by simp)]
      exact h.shortens (same_shortens h.isRanked a b)
  | union a b => exact h.union a b

theorem hasClasses_serveAll
    (requests : List (Request n)) :
    (serveAll requests).HasClasses (classes requests) := by
  induction requests using List.reverseRecOn with
  | nil => exact hasClasses_singletons n
  | append_singleton requests request ih =>
      rw [serveAll_concat]
      exact ih.serve request

/- There are as many classes as elements that stand for them. -/
theorem HasClasses.card_quotient
    {s : Setoid (Fin n)}
    (h : p.HasClasses s) :
    Nat.card (Quotient s) = p.count := by
  have hLt : ∀ x : Fin n, (x : Nat) < p.size :=
    fun x => h.size.symm ▸ x.isLt
  let standFor : Quotient s → p.roots :=
    Quotient.lift
      (fun x : Fin n =>
        ⟨p.root x, h.isRanked.root_mem_roots (hLt x)⟩)
      (fun a b hab => Subtype.ext ((h.root_eq_iff a b).mpr hab))
  have hBijective : standFor.Bijective := by
    constructor
    · intro c d
      induction c using Quotient.inductionOn with
      | h a =>
        induction d using Quotient.inductionOn with
        | h b =>
          intro hEq
          exact Quotient.sound
            ((h.root_eq_iff a b).mp (congrArg Subtype.val hEq))
    · rintro ⟨x, hx⟩
      rcases mem_roots.mp hx with ⟨hIn, hRoot⟩
      exact ⟨⟦⟨x, h.size ▸ hIn⟩⟧, Subtype.ext hRoot⟩
  rw [Nat.card_eq_of_bijective standFor hBijective, h.count,
    Nat.card_eq_fintype_card, Fintype.card_coe]

------------------------------------------------------------
-- Runs
------------------------------------------------------------

/-
  What a partition answers while its sets are the classes of an
  equivalence.  Both walks of a look-up end.
-/
structure Keeps
    (p : Partition)
    (s : Setoid (Fin n)) : Prop where
  find_eq_iff :
    ∀ a b : Fin n, (p.find a).1 = (p.find b).1 ↔ s a b
  find_find_eq_iff :
    ∀ a b : Fin n, (p.find a).1 = ((p.find a).2.find b).1 ↔ s a b
  same_iff : ∀ a b : Fin n, (p.same a b).1 = true ↔ s a b
  find_mem : ∀ x : Fin n, ∃ y : Fin n, (p.find x).1 = y ∧ s y x
  union_iff : ∀ a b : Fin n, (p.union a b).1 = true ↔ ¬ s a b
  count : p.count = Nat.card (Quotient s)
  count_union :
    ∀ a b : Fin n,
      (p.union a b).1 = true → (p.union a b).2.count + 1 = p.count
  climbs : ∀ x : Fin n, p.Climbs x (p.find x).1
  compresses :
    ∀ x : Fin n, Compresses (p.find x).1 p x (p.find x).2
  find_find :
    ∀ x y : Fin n, ((p.find x).2.find y).1 = (p.find y).1

/-
  Whatever is asked, in any order, the sets are the classes that
  the joined pairs generate.
-/
theorem keeps_serveAll
    (requests : List (Request n)) :
    (serveAll requests).Keeps (classes requests) := by
  have h := hasClasses_serveAll requests
  have hLt : ∀ x : Fin n, (x : Nat) < (serveAll requests).size :=
    fun x => h.size.symm ▸ x.isLt
  have hFind :
      ∀ x y : Fin n,
        (((serveAll requests).find x).2.find y).1 =
          ((serveAll requests).find y).1 :=
    fun x y => (find_shortens h.isRanked x).2.root y
  constructor
  · exact h.root_eq_iff
  · intro a b
    rw [hFind]
    exact h.root_eq_iff a b
  · intro a b
    rw [← h.root_eq_iff, ← (find_shortens h.isRanked a).2.root b]
    exact decide_eq_true_iff
  · intro x
    have hRoot := h.isRanked.root_lt (hLt x)
    rw [h.size] at hRoot
    refine ⟨⟨(serveAll requests).root x, hRoot⟩, rfl, ?_⟩
    exact (h.root_eq_iff _ _).mp (h.isRanked.root_root x)
  · intro a b
    rw [union_fst h.isRanked, Ne, h.root_eq_iff]
  · exact h.card_quotient.symm
  · intro a b hJoined
    have hNe := (union_fst h.isRanked a b).mp hJoined
    have hCard := card_roots_union h.isRanked (hLt a) (hLt b)
    have hCount := h.count
    rw [Partition.count_union h.isRanked]
    rw [if_neg hNe] at hCard ⊢
    omega
  · exact fun x => h.isRanked.climbs_root (hLt x)
  · exact fun x => h.isRanked.compresses_find (hLt x)
  · exact hFind

end Partition

end DotLang
