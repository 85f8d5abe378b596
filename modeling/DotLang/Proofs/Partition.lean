import DotLang.Partition
import Mathlib.Data.Finset.Card
import Mathlib.Data.Finset.Range

/-
  This file proves that looking up a set of a partition finds the
  same root in it from all elements, that making paths shorter
  moves no element to another set, and that joining two sets
  leaves all others alone.

  Ranks grow along parent links, so that there are no cycles.

  Key definitions include:
    * `Partition.IsRanked`
    * `Partition.Shortens`

  Key theorems include:
    * `Partition.find_shortens`
    * `Partition.root_link`
    * `Partition.root_union_eq_iff`
-/

------------------------------------------------------------
-- Ranked Links
------------------------------------------------------------

namespace DotLang

namespace Partition

variable {p q : Partition} {x y z : Nat}

/- Links stay inside, and lead to elements of higher rank. -/
structure IsRanked (p : Partition) : Prop where
  size_rank : p.rank.size = p.size
  parent_lt : ∀ {x}, x < p.size → p.parentOf x < p.size
  rank_lt :
    ∀ {x}, p.parentOf x ≠ x → p.rankOf x < p.rankOf (p.parentOf x)

theorem isRanked_singletons
    (n : Nat) :
    (singletons n).IsRanked where
  size_rank := by simp [singletons, size]
  parent_lt {x} hx := by
    simp only [singletons, size, Array.size_range] at hx
    simp [singletons, size, parentOf, hx]
  rank_lt {x} hNe := by
    refine absurd ?_ hNe
    by_cases hx : x < n
    · simp [singletons, parentOf, hx]
    · simp [singletons, parentOf, hx]

/- An element that does not exist is its own parent. -/
theorem lt_size_of_parentOf_ne
    (hNe : p.parentOf x ≠ x) :
    x < p.size := by
  by_contra hx
  unfold size at hx
  exact hNe (by simp [parentOf, hx])

theorem parentOf_setParent
    (hx : x < p.size) :
    (p.setParent x y).parentOf z =
      if z = x then y else p.parentOf z := by
  unfold size at hx
  by_cases hEq : z = x
  · subst hEq
    simp [parentOf, setParent, hx]
  · simp only [parentOf, setParent, Array.getD_eq_getD_getElem?,
      Array.getElem?_setIfInBounds, if_neg (Ne.symm hEq),
      if_neg hEq]

@[simp] theorem size_setParent :
    (p.setParent x y).size = p.size := by
  simp [size, setParent]

/- One element has another rank, and nothing else changes. -/
theorem rankOf_setRank
    {k : Nat}
    (hx : x < p.rank.size)
    (hRank : q.rank = p.rank.setIfInBounds x k) :
    q.rankOf z = if z = x then k else p.rankOf z := by
  by_cases hEq : z = x
  · subst hEq
    simp [rankOf, hRank, hx]
  · simp only [rankOf, hRank, Array.getD_eq_getD_getElem?,
      Array.getElem?_setIfInBounds, if_neg (Ne.symm hEq),
      if_neg hEq]

/- A link to an element of higher rank keeps links ranked. -/
theorem IsRanked.setParent
    (hp : p.IsRanked)
    (hx : x < p.size)
    (hy : y < p.size)
    (hRank : p.rankOf x < p.rankOf y) :
    (p.setParent x y).IsRanked where
  size_rank := by
    rw [size_setParent]
    exact hp.size_rank
  parent_lt {z} hz := by
    rw [size_setParent] at hz ⊢
    rw [parentOf_setParent hx]
    by_cases hEq : z = x
    · rwa [if_pos hEq]
    · rw [if_neg hEq]
      exact hp.parent_lt hz
  rank_lt {z} hNe := by
    rw [parentOf_setParent hx] at hNe ⊢
    by_cases hEq : z = x
    · rw [if_pos hEq, hEq]
      exact hRank
    · rw [if_neg hEq] at hNe ⊢
      exact hp.rank_lt hNe

------------------------------------------------------------
-- Roots
------------------------------------------------------------

/- How many elements there are of higher rank. -/
def above (p : Partition) (x : Nat) : Nat :=
  ((Finset.range p.size).filter
    fun y => p.rankOf x < p.rankOf y).card

theorem above_le_size
    (p : Partition)
    (x : Nat) :
    p.above x ≤ p.size := by
  have hLe := Finset.card_filter_le (Finset.range p.size)
    fun y => p.rankOf x < p.rankOf y
  rwa [Finset.card_range] at hLe

theorem IsRanked.above_parentOf_lt
    (hp : p.IsRanked)
    (hNe : p.parentOf x ≠ x) :
    p.above (p.parentOf x) < p.above x := by
  have hLt := hp.rank_lt hNe
  have hSize := hp.parent_lt (lt_size_of_parentOf_ne hNe)
  apply Finset.card_lt_card
  rw [Finset.ssubset_iff_of_subset]
  · refine ⟨p.parentOf x, ?_, ?_⟩
    · simp [hSize, hLt]
    · simp
  · intro y hy
    rw [Finset.mem_filter] at hy ⊢
    exact ⟨hy.1, Nat.lt_trans hLt hy.2⟩

/- What parents hand down holds for all elements. -/
theorem IsRanked.climb
    {motive : Nat → Prop}
    (hp : p.IsRanked)
    (root : ∀ x, p.parentOf x = x → motive x)
    (step :
      ∀ x, p.parentOf x ≠ x → motive (p.parentOf x) → motive x)
    (x : Nat) :
    motive x := by
  suffices hAll : ∀ k x, p.above x = k → motive x from hAll _ x rfl
  intro k
  induction k using Nat.strongRecOn with
  | ind k ih =>
      intro x hk
      by_cases hSelf : p.parentOf x = x
      · exact root x hSelf
      · have hLt := hp.above_parentOf_lt hSelf
        exact step x hSelf (ih _ (by omega) _ rfl)

theorem rootWithin_of_parentOf_eq
    (hSelf : p.parentOf x = x) :
    ∀ bound, p.rootWithin bound x = x
| 0 => rfl
| bound + 1 => by rw [rootWithin, if_pos hSelf]

theorem IsRanked.rootWithin_stable
    (hp : p.IsRanked)
    (x : Nat) :
    ∀ k k',
      p.above x ≤ k →
        p.above x ≤ k' →
        p.rootWithin k x = p.rootWithin k' x := by
  induction x using hp.climb with
  | root x hSelf =>
      intro k k' _ _
      rw [rootWithin_of_parentOf_eq hSelf,
        rootWithin_of_parentOf_eq hSelf]
  | step x hNe ih =>
      intro k k' hk hk'
      have hLt := hp.above_parentOf_lt hNe
      rcases k with _ | k
      · omega
      rcases k' with _ | k'
      · omega
      rw [rootWithin, rootWithin, if_neg hNe, if_neg hNe]
      exact ih k k' (by omega) (by omega)

/- Roots depend on parent links and on nothing else. -/
theorem root_congr
    (hParent : q.parent = p.parent)
    (x : Nat) :
    q.root x = p.root x := by
  have hAll :
      ∀ bound x, q.rootWithin bound x = p.rootWithin bound x := by
    intro bound
    induction bound with
    | zero => exact fun _ => rfl
    | succ bound ih =>
        intro x
        have hOf : q.parentOf x = p.parentOf x := by
          rw [parentOf, parentOf, hParent]
        rw [rootWithin, rootWithin, hOf, ih]
  rw [root, root, size, size, hParent]
  exact hAll _ x

theorem root_of_parentOf_eq
    (hSelf : p.parentOf x = x) :
    p.root x = x :=
  rootWithin_of_parentOf_eq hSelf _

/- An element and its parent have the same root. -/
theorem IsRanked.root_parentOf
    (hp : p.IsRanked)
    (x : Nat) :
    p.root (p.parentOf x) = p.root x := by
  by_cases hSelf : p.parentOf x = x
  · rw [hSelf]
  · have hLt := hp.above_parentOf_lt hSelf
    have hSize := above_le_size p x
    have hSucc := hp.rootWithin_stable x p.size (p.size + 1)
      hSize (by omega)
    rw [root, root, hSucc, rootWithin, if_neg hSelf]

theorem IsRanked.parentOf_root
    (hp : p.IsRanked)
    (x : Nat) :
    p.parentOf (p.root x) = p.root x := by
  induction x using hp.climb with
  | root x hSelf => rw [root_of_parentOf_eq hSelf, hSelf]
  | step x _ ih => rwa [hp.root_parentOf] at ih

theorem IsRanked.root_root
    (hp : p.IsRanked)
    (x : Nat) :
    p.root (p.root x) = p.root x :=
  root_of_parentOf_eq (hp.parentOf_root x)

theorem IsRanked.root_lt
    (hp : p.IsRanked)
    (hx : x < p.size) :
    p.root x < p.size := by
  induction x using hp.climb with
  | root x hSelf => rwa [root_of_parentOf_eq hSelf]
  | step x _ ih =>
      rw [← hp.root_parentOf]
      exact ih (hp.parent_lt hx)

theorem IsRanked.rank_le_root
    (hp : p.IsRanked)
    (x : Nat) :
    p.rankOf x ≤ p.rankOf (p.root x) := by
  induction x using hp.climb with
  | root x hSelf => rw [root_of_parentOf_eq hSelf]
  | step x hNe ih =>
      rw [hp.root_parentOf] at ih
      exact Nat.le_trans (Nat.le_of_lt (hp.rank_lt hNe)) ih

theorem IsRanked.rank_lt_root
    (hp : p.IsRanked)
    (hNe : p.parentOf x ≠ x) :
    p.rankOf x < p.rankOf (p.root x) := by
  rw [← hp.root_parentOf]
  exact Nat.lt_of_lt_of_le (hp.rank_lt hNe) (hp.rank_le_root _)

@[simp] theorem root_singletons
    (n x : Nat) :
    (singletons n).root x = x := by
  apply root_of_parentOf_eq
  by_cases hx : x < n
  · simp [singletons, parentOf, hx]
  · simp [singletons, parentOf, hx]

------------------------------------------------------------
-- Shorter Paths
------------------------------------------------------------

/- The same sets with the same roots, along other paths. -/
structure Shortens (p q : Partition) : Prop where
  isRanked : q.IsRanked
  size : q.size = p.size
  rank : q.rank = p.rank
  count : q.count = p.count
  root : ∀ x, q.root x = p.root x

theorem Shortens.refl
    (hp : p.IsRanked) :
    p.Shortens p where
  isRanked := hp
  size := rfl
  rank := rfl
  count := rfl
  root _ := rfl

theorem Shortens.trans
    {r : Partition}
    (h : p.Shortens q)
    (h' : q.Shortens r) :
    p.Shortens r where
  isRanked := h'.isRanked
  size := h'.size.trans h.size
  rank := h'.rank.trans h.rank
  count := h'.count.trans h.count
  root x := (h'.root x).trans (h.root x)

/- An element may hang right under its root. -/
theorem IsRanked.shortens_setParent
    (hp : p.IsRanked)
    (hNe : p.parentOf x ≠ x) :
    p.Shortens (p.setParent x (p.root x)) := by
  have hx := lt_size_of_parentOf_ne hNe
  have hq := hp.setParent hx (hp.root_lt hx) (hp.rank_lt_root hNe)
  refine ⟨hq, size_setParent, rfl, rfl, ?_⟩
  intro z
  induction z using hq.climb with
  | root z hSelf =>
      rw [root_of_parentOf_eq hSelf]
      rw [parentOf_setParent hx] at hSelf
      by_cases hEq : z = x
      · rw [if_pos hEq] at hSelf
        rw [hEq, hSelf, hEq]
      · rw [if_neg hEq] at hSelf
        rw [root_of_parentOf_eq hSelf]
  | step z _ ih =>
      rw [hq.root_parentOf, parentOf_setParent hx] at ih
      rw [ih]
      by_cases hEq : z = x
      · rw [if_pos hEq, hp.root_root, hEq]
      · rw [if_neg hEq, hp.root_parentOf]

theorem compressWithin_shortens
    (bound : Nat)
    (hp : p.IsRanked) :
    p.Shortens (compressWithin (p.root x) bound p x) := by
  induction bound generalizing p x with
  | zero => exact .refl hp
  | succ bound ih =>
      rw [compressWithin]
      by_cases hTop : p.parentOf x = p.root x
      · rw [if_pos hTop]
        exact .refl hp
      · have hNe : p.parentOf x ≠ x := by
          intro hSelf
          exact hTop (hSelf.trans (root_of_parentOf_eq hSelf).symm)
        have hStep := hp.shortens_setParent hNe
        have hRest := ih (x := p.parentOf x) hStep.isRanked
        rw [hStep.root, hp.root_parentOf] at hRest
        rw [if_neg hTop]
        exact hStep.trans hRest

/- Looking a set up finds its root and moves no element. -/
theorem find_shortens
    (hp : p.IsRanked)
    (x : Nat) :
    (p.find x).1 = p.root x ∧ p.Shortens (p.find x).2 :=
  ⟨rfl, compressWithin_shortens p.size hp⟩

theorem same_shortens
    (hp : p.IsRanked)
    (x y : Nat) :
    p.Shortens (p.same x y).2 := by
  have hX := (find_shortens hp x).2
  exact hX.trans (find_shortens hX.isRanked y).2

------------------------------------------------------------
-- Joining
------------------------------------------------------------

/- The root that stays one when two of them are linked. -/
def topOf (p : Partition) (a b : Nat) : Nat :=
  if p.rankOf a < p.rankOf b then b else a

theorem topOf_eq_or_eq
    (p : Partition)
    (a b : Nat) :
    p.topOf a b = a ∨ p.topOf a b = b := by
  unfold topOf
  by_cases hLt : p.rankOf a < p.rankOf b
  · exact .inr (if_pos hLt)
  · exact .inl (if_neg hLt)

/- One root hangs under another one, and nothing else changes. -/
theorem root_of_hang
    (hp : p.IsRanked)
    (hq : q.IsRanked)
    (hx : p.parentOf x = x)
    (hy : p.parentOf y = y)
    (hNe : x ≠ y)
    (hParent :
      ∀ z, q.parentOf z = if z = x then y else p.parentOf z)
    (z : Nat) :
    q.root z = if p.root z = x then y else p.root z := by
  induction z using hq.climb with
  | root z hSelf =>
      rw [root_of_parentOf_eq hSelf]
      rw [hParent] at hSelf
      by_cases hEq : z = x
      · rw [if_pos hEq] at hSelf
        exact absurd (hSelf.trans hEq).symm hNe
      · rw [if_neg hEq] at hSelf
        rw [root_of_parentOf_eq hSelf, if_neg hEq]
  | step z _ ih =>
      rw [hq.root_parentOf, hParent] at ih
      rw [ih]
      by_cases hEq : z = x
      · rw [if_pos hEq, root_of_parentOf_eq hy,
          if_neg (Ne.symm hNe), hEq, root_of_parentOf_eq hx,
          if_pos rfl]
      · rw [if_neg hEq, hp.root_parentOf]

/- A root that gets a child of its own rank rises. -/
theorem IsRanked.linkEqual
    {a b : Nat}
    (hp : p.IsRanked)
    (ha : a < p.size)
    (hb : b < p.size)
    (hRootA : p.parentOf a = a)
    (hNe : a ≠ b)
    (hRank : p.rankOf a = p.rankOf b) :
    IsRanked
      { p.setParent b a with
        rank := p.rank.setIfInBounds a (p.rankOf a + 1) } := by
  let q : Partition :=
    { p.setParent b a with
      rank := p.rank.setIfInBounds a (p.rankOf a + 1) }
  have hParent :
      ∀ z, q.parentOf z = if z = b then a else p.parentOf z :=
    fun z => parentOf_setParent hb
  have hRankOf :
      ∀ z,
        q.rankOf z = if z = a then p.rankOf a + 1 else p.rankOf z :=
    fun z => rankOf_setRank (hp.size_rank.symm ▸ ha) rfl
  have hSize : q.size = p.size := size_setParent
  refine ⟨?_, ?_, ?_⟩
  · rw [Array.size_setIfInBounds, hp.size_rank]
    exact hSize.symm
  · intro z hz
    change q.parentOf z < q.size
    rw [hParent, hSize]
    by_cases hEq : z = b
    · rwa [if_pos hEq]
    · rw [if_neg hEq]
      exact hp.parent_lt (hSize ▸ hz)
  · intro z hz
    change q.parentOf z ≠ z at hz
    change q.rankOf z < q.rankOf (q.parentOf z)
    rw [hParent] at hz ⊢
    by_cases hEq : z = b
    · rw [if_pos hEq, hRankOf, hRankOf, if_pos rfl, hEq,
        if_neg (Ne.symm hNe), hRank]
      exact Nat.lt_succ_self _
    · rw [if_neg hEq] at hz ⊢
      have hza : z ≠ a := by
        rintro rfl
        exact hz hRootA
      have hLt := hp.rank_lt hz
      rw [hRankOf, hRankOf, if_neg hza]
      by_cases hTop : p.parentOf z = a
      · rw [if_pos hTop, ← hTop]
        exact Nat.lt_succ_of_lt hLt
      · rwa [if_neg hTop]

theorem link_isRanked
    {a b : Nat}
    (hp : p.IsRanked)
    (ha : a < p.size)
    (hb : b < p.size)
    (hRootA : p.parentOf a = a)
    (hNe : a ≠ b) :
    (p.link a b).IsRanked ∧
      (p.link a b).size = p.size ∧
      (p.link a b).count = p.count := by
  unfold link
  by_cases hLt : p.rankOf a < p.rankOf b
  · rw [if_pos hLt]
    exact ⟨hp.setParent ha hb hLt, size_setParent, rfl⟩
  · rw [if_neg hLt]
    by_cases hGt : p.rankOf b < p.rankOf a
    · rw [if_pos hGt]
      exact ⟨hp.setParent hb ha hGt, size_setParent, rfl⟩
    · rw [if_neg hGt]
      exact ⟨hp.linkEqual ha hb hRootA hNe (by omega),
        size_setParent, rfl⟩

/- Linking two roots makes one set of two, and no other. -/
theorem root_link
    {a b : Nat}
    (hp : p.IsRanked)
    (ha : a < p.size)
    (hb : b < p.size)
    (hRootA : p.parentOf a = a)
    (hRootB : p.parentOf b = b)
    (hNe : a ≠ b)
    (z : Nat) :
    (p.link a b).root z =
      if p.root z = a ∨ p.root z = b then
        p.topOf a b
      else
        p.root z := by
  have hq := (link_isRanked hp ha hb hRootA hNe).1
  by_cases hLt : p.rankOf a < p.rankOf b
  · have hParent :
        ∀ z,
          (p.link a b).parentOf z =
            if z = a then b else p.parentOf z := by
      intro z
      rw [link, if_pos hLt, parentOf_setParent ha]
    rw [root_of_hang hp hq hRootA hRootB hNe hParent, topOf,
      if_pos hLt]
    by_cases hA : p.root z = a
    · simp [hA]
    · by_cases hB : p.root z = b
      · simp [hB]
      · simp [hA, hB]
  · have hParent :
        ∀ z,
          (p.link a b).parentOf z =
            if z = b then a else p.parentOf z := by
      intro z
      rw [link, if_neg hLt]
      by_cases hGt : p.rankOf b < p.rankOf a
      · rw [if_pos hGt, parentOf_setParent hb]
      · rw [if_neg hGt]
        exact parentOf_setParent hb
    rw [root_of_hang hp hq hRootB hRootA (Ne.symm hNe) hParent,
      topOf, if_neg hLt]
    by_cases hB : p.root z = b
    · simp [hB]
    · by_cases hA : p.root z = a
      · simp [hA]
      · simp [hA, hB]

section Union

variable {a b : Nat}

/- Both look-ups come before anything is linked. -/
theorem union_eq_ite
    (p : Partition)
    (a b : Nat) :
    p.union a b =
      if (p.find a).1 = ((p.find a).2.find b).1 then
        (false, ((p.find a).2.find b).2)
      else
        (true,
          { ((p.find a).2.find b).2.link (p.find a).1
              ((p.find a).2.find b).1 with
            count := ((p.find a).2.find b).2.count - 1 }) :=
  rfl

/- The partition in which the two roots were looked up. -/
theorem union_eq
    (hp : p.IsRanked)
    (a b : Nat) :
    ∃ q,
      p.Shortens q ∧
        p.union a b =
          if p.root a = p.root b then
            (false, q)
          else
            (true,
              { q.link (p.root a) (p.root b) with
                count := q.count - 1 }) := by
  have hA := (find_shortens hp a).2
  have hB := (find_shortens hA.isRanked b).2
  refine ⟨((p.find a).2.find b).2, hA.trans hB, ?_⟩
  have hRoot : ((p.find a).2.find b).1 = p.root b := hA.root b
  rw [union_eq_ite, hRoot, (find_shortens hp a).1]

theorem union_fst
    (hp : p.IsRanked)
    (a b : Nat) :
    (p.union a b).1 = true ↔ p.root a ≠ p.root b := by
  rcases union_eq hp a b with ⟨q, -, hEq⟩
  rw [hEq]
  by_cases hSame : p.root a = p.root b
  · simp [hSame]
  · simp [hSame]

theorem union_isRanked
    (hp : p.IsRanked)
    (ha : a < p.size)
    (hb : b < p.size) :
    (p.union a b).2.IsRanked ∧ (p.union a b).2.size = p.size := by
  rcases union_eq hp a b with ⟨q, hq, hEq⟩
  rw [hEq]
  by_cases hSame : p.root a = p.root b
  · rw [if_pos hSame]
    exact ⟨hq.isRanked, hq.size⟩
  · rw [if_neg hSame]
    have hRootA : q.parentOf (p.root a) = p.root a := by
      rw [← hq.root, hq.isRanked.parentOf_root]
    rcases link_isRanked hq.isRanked
      (hq.size.symm ▸ hp.root_lt ha) (hq.size.symm ▸ hp.root_lt hb)
      hRootA hSame with ⟨hLink, hSize, -⟩
    exact ⟨⟨hLink.size_rank, hLink.parent_lt, hLink.rank_lt⟩,
      hSize.trans hq.size⟩

/- Elements that are together after joining two sets. -/
theorem root_union_eq_iff
    (hp : p.IsRanked)
    (ha : a < p.size)
    (hb : b < p.size)
    (x y : Nat) :
    (p.union a b).2.root x = (p.union a b).2.root y ↔
      p.root x = p.root y ∨
        p.root x = p.root a ∧ p.root y = p.root b ∨
        p.root x = p.root b ∧ p.root y = p.root a := by
  rcases union_eq hp a b with ⟨q, hq, hEq⟩
  by_cases hSame : p.root a = p.root b
  · rw [hEq, if_pos hSame, hq.root, hq.root, hSame]
    constructor
    · exact .inl
    · rintro (hEq | ⟨hX, hY⟩ | ⟨hX, hY⟩)
      · exact hEq
      · exact hX.trans hY.symm
      · exact hX.trans hY.symm
  · have hRoot :
        ∀ z : Nat, q.parentOf (p.root z) = p.root z := by
      intro z
      rw [← hq.root, hq.isRanked.parentOf_root]
    have hLink := root_link hq.isRanked
      (hq.size.symm ▸ hp.root_lt ha) (hq.size.symm ▸ hp.root_lt hb)
      (hRoot a) (hRoot b) hSame
    have hJoined :
        ∀ z,
          (p.union a b).2.root z =
            if p.root z = p.root a ∨ p.root z = p.root b then
              q.topOf (p.root a) (p.root b)
            else
              p.root z := by
      intro z
      rw [hEq, if_neg hSame, ← hq.root z, ← hLink z]
      apply root_congr
      rfl
    have hTop := q.topOf_eq_or_eq (p.root a) (p.root b)
    rw [hJoined, hJoined]
    clear hJoined hLink hRoot hEq hq
    grind

end Union

end Partition

end DotLang
