import DotLang.Proofs.Lookups
import DotLang.Proofs.Partition.Classes
import Mathlib.Data.Nat.Log

/-
  This file proves that the ranks of a partition stay low, however
  it was made from single elements.

  A root rises only over another root of its own rank, and so the
  number of elements in its set doubles with each rank.  Paths up
  to a root pass elements of higher and higher rank, and are as
  short as ranks are low.  A byte holds every rank that a partition
  of less than `2 ^ 256` elements can reach.

  Key definitions include:
    * `Partition.members`
    * `Partition.IsWeighty`
    * `Partition.Rises`
    * `Partition.serveAllInBytes?`
    * `Partition.StaysLow`

  Key theorems include:
    * `Partition.IsWeighty.union`
    * `Partition.IsWeighty.two_pow_rankOf_le`
    * `Partition.staysLow_serveAll`
-/

------------------------------------------------------------
-- Members
------------------------------------------------------------

namespace DotLang

namespace Partition

variable {p q : Partition} {x y z r : Nat}

/- The elements whose set an element stands for. -/
def members (p : Partition) (r : Nat) : Finset Nat :=
  (Finset.range p.size).filter fun x => p.root x = r

theorem mem_members :
    x ∈ p.members r ↔ x < p.size ∧ p.root x = r := by
  rw [members, Finset.mem_filter, Finset.mem_range]

theorem self_mem_members
    (hr : r ∈ p.roots) :
    r ∈ p.members r :=
  mem_members.mpr (mem_roots.mp hr)

theorem card_members_le
    (p : Partition)
    (r : Nat) :
    (p.members r).card ≤ p.size := by
  have hLe := Finset.card_filter_le (Finset.range p.size)
    fun x => p.root x = r
  rwa [Finset.card_range] at hLe

theorem disjoint_members
    {a b : Nat}
    (hNe : a ≠ b) :
    Disjoint (p.members a) (p.members b) := by
  rw [Finset.disjoint_left]
  intro x ha hb
  exact hNe ((mem_members.mp ha).2.symm.trans (mem_members.mp hb).2)

/- A class has the elements that share a root with one of them. -/
theorem HasClasses.card_class
    {n : Nat}
    {s : Setoid (Fin n)}
    (h : p.HasClasses s)
    (y : Fin n) :
    Nat.card {x : Fin n // s x y} = (p.members (p.root y)).card := by
  let toMember : {x : Fin n // s x y} → p.members (p.root y) :=
    fun x =>
      ⟨x.1, mem_members.mpr
        ⟨h.size.symm ▸ x.1.isLt, (h.root_eq_iff _ _).mpr x.2⟩⟩
  have hBijective : toMember.Bijective := by
    constructor
    · intro x x' hEq
      exact Subtype.ext (Fin.ext (congrArg Subtype.val hEq))
    · rintro ⟨x, hx⟩
      rcases mem_members.mp hx with ⟨hIn, hRoot⟩
      let x' : Fin n := ⟨x, h.size ▸ hIn⟩
      exact ⟨⟨x', (h.root_eq_iff x' y).mp hRoot⟩, rfl⟩
  rw [Nat.card_eq_of_bijective toMember hBijective,
    Nat.card_eq_fintype_card, Fintype.card_coe]

------------------------------------------------------------
-- Weight
------------------------------------------------------------

/- A root of rank `k` stands for at least `2 ^ k` elements. -/
def IsWeighty (p : Partition) : Prop :=
  ∀ r ∈ p.roots, 2 ^ p.rankOf r ≤ (p.members r).card

@[simp] theorem rankOf_singletons
    (n x : Nat) :
    (singletons n).rankOf x = 0 := by
  simp only [singletons, rankOf, Array.getD_eq_getD_getElem?,
    Array.getElem?_replicate]
  split
  · rfl
  · rfl

theorem isWeighty_singletons
    (n : Nat) :
    (singletons n).IsWeighty := by
  intro r hr
  rw [rankOf_singletons]
  exact Finset.card_pos.mpr ⟨r, self_mem_members hr⟩

/- Weight depends on parent links and ranks alone. -/
theorem IsWeighty.congr
    (h : p.IsWeighty)
    (hParent : q.parent = p.parent)
    (hRank : q.rank = p.rank) :
    q.IsWeighty := by
  intro r hr
  rw [roots_congr hParent] at hr
  simp only [members, size, root_congr hParent, hParent, rankOf,
    hRank]
  exact h r hr

theorem IsWeighty.shortens
    (h : p.IsWeighty)
    (hShort : p.Shortens q) :
    q.IsWeighty := by
  intro r hr
  rw [hShort.roots] at hr
  simp only [members, hShort.size, hShort.root, rankOf, hShort.rank]
  exact h r hr

section Linking

variable {a b : Nat}

/- Only a root that is linked to one of its own rank rises. -/
theorem IsRanked.rankOf_link
    (hp : p.IsRanked)
    (ha : a < p.size)
    (z : Nat) :
    (p.link a b).rankOf z =
      if z = a ∧ p.rankOf a = p.rankOf b then
        p.rankOf a + 1
      else
        p.rankOf z := by
  unfold link
  by_cases hLt : p.rankOf a < p.rankOf b
  · rw [if_pos hLt, if_neg (fun hBoth => by omega)]
    rfl
  · rw [if_neg hLt]
    by_cases hGt : p.rankOf b < p.rankOf a
    · rw [if_pos hGt, if_neg (fun hBoth => by omega)]
      rfl
    · have hEq : p.rankOf a = p.rankOf b := by omega
      rw [if_neg hGt, rankOf_setRank (hp.size_rank.symm ▸ ha) rfl]
      simp only [hEq, and_true]

/- The root on top rises no higher than both sets together allow. -/
theorem IsRanked.two_pow_rankOf_topOf_le
    (hp : p.IsRanked)
    (ha : a < p.size)
    (hNe : a ≠ b) :
    2 ^ (p.link a b).rankOf (p.topOf a b) ≤
      2 ^ p.rankOf a + 2 ^ p.rankOf b := by
  rw [hp.rankOf_link ha, topOf]
  by_cases hLt : p.rankOf a < p.rankOf b
  · rw [if_pos hLt, if_neg (fun hBoth => hNe hBoth.1.symm)]
    exact Nat.le_add_left _ _
  · rw [if_neg hLt]
    by_cases hEq : p.rankOf a = p.rankOf b
    · rw [if_pos ⟨rfl, hEq⟩, ← hEq, Nat.pow_succ, Nat.mul_two]
    · rw [if_neg (fun hBoth => hEq hBoth.2)]
      exact Nat.le_add_right _ _

/- Both sets are in the one that the root on top stands for. -/
theorem IsRanked.union_members_subset
    (hp : p.IsRanked)
    (ha : a ∈ p.roots)
    (hb : b ∈ p.roots)
    (hNe : a ≠ b) :
    p.members a ∪ p.members b ⊆
      (p.link a b).members (p.topOf a b) := by
  rcases hp.link_of_mem_roots ha hb hNe with ⟨-, hSize, hRoot⟩
  intro z hz
  rw [Finset.mem_union, mem_members, mem_members] at hz
  rw [mem_members, hSize, hRoot]
  rcases hz with ⟨hIn, hRootA⟩ | ⟨hIn, hRootB⟩
  · exact ⟨hIn, if_pos (.inl hRootA)⟩
  · exact ⟨hIn, if_pos (.inr hRootB)⟩

/- All other sets keep their elements. -/
theorem IsRanked.members_subset_link
    (hp : p.IsRanked)
    (ha : a ∈ p.roots)
    (hb : b ∈ p.roots)
    (hNe : a ≠ b)
    (hA : r ≠ a)
    (hB : r ≠ b) :
    p.members r ⊆ (p.link a b).members r := by
  rcases hp.link_of_mem_roots ha hb hNe with ⟨-, hSize, hRoot⟩
  intro z hz
  rcases mem_members.mp hz with ⟨hIn, rfl⟩
  rw [mem_members, hSize, hRoot]
  exact ⟨hIn, if_neg (not_or.mpr ⟨hA, hB⟩)⟩

theorem IsRanked.mem_roots_link
    (hp : p.IsRanked)
    (ha : a ∈ p.roots)
    (hb : b ∈ p.roots)
    (hNe : a ≠ b)
    (hr : r ∈ (p.link a b).roots) :
    r = p.topOf a b ∨ r ≠ a ∧ r ≠ b ∧ r ∈ p.roots := by
  rw [roots_link hp ha hb hNe, Finset.mem_erase] at hr
  rcases hr with ⟨hKept, hr⟩
  rcases p.topOf_eq_or_eq a b with hTop | hTop
  · rw [hTop, if_pos rfl] at hKept
    by_cases hEq : r = a
    · exact .inl (hEq.trans hTop.symm)
    · exact .inr ⟨hEq, hKept, hr⟩
  · rw [hTop, if_neg (Ne.symm hNe)] at hKept
    by_cases hEq : r = b
    · exact .inl (hEq.trans hTop.symm)
    · exact .inr ⟨hKept, hEq, hr⟩

theorem IsWeighty.link
    (h : p.IsWeighty)
    (hp : p.IsRanked)
    (ha : a ∈ p.roots)
    (hb : b ∈ p.roots)
    (hNe : a ≠ b) :
    (p.link a b).IsWeighty := by
  have hIn := (mem_roots.mp ha).1
  intro r hr
  rcases hp.mem_roots_link ha hb hNe hr with rfl | ⟨hA, hB, hr⟩
  · calc
      2 ^ (p.link a b).rankOf (p.topOf a b)
          ≤ 2 ^ p.rankOf a + 2 ^ p.rankOf b :=
        hp.two_pow_rankOf_topOf_le hIn hNe
      _ ≤ (p.members a).card + (p.members b).card :=
        Nat.add_le_add (h a ha) (h b hb)
      _ = (p.members a ∪ p.members b).card :=
        (Finset.card_union_of_disjoint (disjoint_members hNe)).symm
      _ ≤ ((p.link a b).members (p.topOf a b)).card :=
        Finset.card_le_card (hp.union_members_subset ha hb hNe)
  · rw [hp.rankOf_link hIn, if_neg (fun hBoth => hA hBoth.1)]
    exact (h r hr).trans
      (Finset.card_le_card (hp.members_subset_link ha hb hNe hA hB))

theorem IsWeighty.union
    (h : p.IsWeighty)
    (hp : p.IsRanked)
    (ha : a < p.size)
    (hb : b < p.size) :
    (p.union a b).2.IsWeighty := by
  rcases union_eq hp a b with ⟨q, hq, hEq⟩
  rw [hEq]
  by_cases hSame : p.root a = p.root b
  · rw [if_pos hSame]
    exact h.shortens hq
  · have hA : p.root a ∈ q.roots := hq.roots ▸ hp.root_mem_roots ha
    have hB : p.root b ∈ q.roots := hq.roots ▸ hp.root_mem_roots hb
    have hLink := (h.shortens hq).link hq.isRanked hA hB hSame
    rw [if_neg hSame]
    exact hLink.congr rfl rfl

end Linking

------------------------------------------------------------
-- Heights
------------------------------------------------------------

/- No rank is too high for the number of elements. -/
theorem IsWeighty.two_pow_rankOf_le
    (h : p.IsWeighty)
    (hp : p.IsRanked)
    (hx : x < p.size) :
    2 ^ p.rankOf x ≤ p.size := by
  calc
    2 ^ p.rankOf x
        ≤ 2 ^ p.rankOf (p.root x) :=
      Nat.pow_le_pow_right Nat.two_pos (hp.rank_le_root x)
    _ ≤ (p.members (p.root x)).card :=
      h (p.root x) (hp.root_mem_roots hx)
    _ ≤ p.size := p.card_members_le (p.root x)

/- The way up from an element along a number of parent links. -/
inductive Rises (p : Partition) : Nat → Nat → Nat → Prop where
| stay
    (x : Nat) :
    Rises p 0 x x
| up
    {k x y : Nat}
    (hBelow : p.parentOf x ≠ x)
    (hRest : Rises p k (p.parentOf x) y) :
    Rises p (k + 1) x y

theorem Climbs.exists_rises
    (h : p.Climbs x r) :
    ∃ k, p.Rises k x r := by
  induction h with
  | stop _ _ => exact ⟨0, .stay _⟩
  | up _ hBelow _ ih =>
      rcases ih with ⟨k, hRest⟩
      exact ⟨k + 1, .up hBelow hRest⟩

/- Each link leads to an element that exists, of higher rank. -/
theorem IsRanked.rankOf_add_le
    {k : Nat}
    (hp : p.IsRanked)
    (h : p.Rises k x y)
    (hx : x < p.size) :
    y < p.size ∧ p.rankOf x + k ≤ p.rankOf y := by
  induction h with
  | stay x => exact ⟨hx, Nat.le_refl _⟩
  | up hBelow _ ih =>
      have hLt := hp.rank_lt hBelow
      rcases ih (hp.parent_lt hx) with ⟨hIn, hLe⟩
      exact ⟨hIn, by omega⟩

theorem IsWeighty.rises_le_log
    {k : Nat}
    (h : p.IsWeighty)
    (hp : p.IsRanked)
    (hRises : p.Rises k x y) :
    k ≤ Nat.log 2 p.size := by
  cases hRises with
  | stay _ => exact Nat.zero_le _
  | up hBelow hRest =>
      have hx := lt_size_of_parentOf_ne hBelow
      rcases hp.rankOf_add_le (.up hBelow hRest) hx with
        ⟨hy, hLe⟩
      have hRank := h.two_pow_rankOf_le hp hy
      have hLog := Nat.le_log_of_pow_le Nat.one_lt_two hRank
      omega

------------------------------------------------------------
-- Ranks in Bytes
------------------------------------------------------------

/- The rank above another one, if a byte holds it. -/
def nextRank? (rank : Nat) : Option Nat :=
  if rank + 1 < UInt8.size then some (rank + 1) else none

/- Link two roots, unless one of them rises out of a byte. -/
def linkInBytes? (p : Partition) (a b : Nat) : Option Partition :=
  if p.rankOf a < p.rankOf b then
    some (p.setParent a b)
  else if p.rankOf b < p.rankOf a then
    some (p.setParent b a)
  else do
    let rank ← nextRank? (p.rankOf a)
    return { p.setParent b a with
      rank := p.rank.setIfInBounds a rank }

/- Join the sets of two elements, with ranks in bytes. -/
def unionInBytes?
    (p : Partition)
    (a b : Nat) : Option (Bool × Partition) :=
  let (rootA, p) := p.find a
  let (rootB, p) := p.find b
  if rootA = rootB then
    some (false, p)
  else do
    let linked ← p.linkInBytes? rootA rootB
    return (true, { linked with count := p.count - 1 })

section Bytes

variable {a b : Nat}

theorem nextRank?_eq
    {rank : Nat}
    (hFits : rank + 1 < UInt8.size) :
    nextRank? rank = some (rank + 1) :=
  if_pos hFits

/- Roots of a weighty partition do not rise out of a byte. -/
theorem IsWeighty.linkInBytes?_eq
    (h : p.IsWeighty)
    (hp : p.IsRanked)
    (ha : a ∈ p.roots)
    (hb : b ∈ p.roots)
    (hNe : a ≠ b)
    (hFew : p.size < 2 ^ UInt8.size) :
    p.linkInBytes? a b = some (p.link a b) := by
  have hIn := (mem_roots.mp ha).1
  rcases hp.link_of_mem_roots ha hb hNe with ⟨hRanked, hSize, -⟩
  have hWeighty := h.link hp ha hb hNe
  unfold linkInBytes? Partition.link
  by_cases hLt : p.rankOf a < p.rankOf b
  · rw [if_pos hLt, if_pos hLt]
  by_cases hGt : p.rankOf b < p.rankOf a
  · rw [if_neg hLt, if_neg hLt, if_pos hGt, if_pos hGt]
  -- the partition after linking has the rank that has to fit
  have hRank : (p.link a b).rankOf a = p.rankOf a + 1 := by
    rw [hp.rankOf_link hIn, if_pos ⟨rfl, by omega⟩]
  have hPow : 2 ^ (p.rankOf a + 1) ≤ p.size := by
    rw [← hRank, ← hSize]
    exact hWeighty.two_pow_rankOf_le hRanked (hSize.symm ▸ hIn)
  have hFits : p.rankOf a + 1 < UInt8.size :=
    (Nat.pow_lt_pow_iff_right Nat.one_lt_two).mp
      (Nat.lt_of_le_of_lt hPow hFew)
  rw [if_neg hLt, if_neg hLt, if_neg hGt, if_neg hGt,
    nextRank?_eq hFits]
  rfl

theorem IsWeighty.unionInBytes?_eq
    (h : p.IsWeighty)
    (hp : p.IsRanked)
    (ha : a < p.size)
    (hb : b < p.size)
    (hFew : p.size < 2 ^ UInt8.size) :
    p.unionInBytes? a b = some (p.union a b) := by
  have hA := (find_shortens hp a).2
  have hB := (find_shortens hA.isRanked b).2
  have hq := hA.trans hB
  rw [union_eq_ite]
  by_cases hSame : (p.find a).1 = ((p.find a).2.find b).1
  · rw [if_pos hSame]
    exact if_pos hSame
  · have hRootA : (p.find a).1 ∈ ((p.find a).2.find b).2.roots :=
      hq.roots ▸ hp.root_mem_roots ha
    have hRootB :
        ((p.find a).2.find b).1 ∈ ((p.find a).2.find b).2.roots :=
      hB.roots ▸ hA.isRanked.root_mem_roots (hA.size.symm ▸ hb)
    have hLink := (h.shortens hq).linkInBytes?_eq hq.isRanked hRootA
      hRootB hSame (hq.size.symm ▸ hFew)
    rw [if_neg hSame]
    exact (if_neg hSame).trans (bind_of_eq_some hLink _)

end Bytes

------------------------------------------------------------
-- Runs
------------------------------------------------------------

section Runs

variable {n : Nat} {s : Setoid (Fin n)}

/- The partition after a request, with ranks in bytes. -/
def serveInBytes? (p : Partition) : Request n → Option Partition
| .find x => some (p.find x).2
| .same a b => some (p.same a b).2
| .union a b => (p.unionInBytes? a b).map Prod.snd

/- The partition after requests, with ranks in bytes. -/
def serveAllInBytes?
    (requests : List (Request n)) : Option Partition :=
  requests.foldlM serveInBytes? (singletons n)

theorem IsWeighty.serve
    (h : p.IsWeighty)
    (hClasses : p.HasClasses s)
    (request : Request n) :
    (p.serve request).IsWeighty := by
  have hLt : ∀ x : Fin n, (x : Nat) < p.size :=
    fun x => hClasses.size.symm ▸ x.isLt
  have hp := hClasses.isRanked
  cases request with
  | find x => exact h.shortens (find_shortens hp x).2
  | same a b => exact h.shortens (same_shortens hp a b)
  | union a b => exact h.union hp (hLt a) (hLt b)

theorem isWeighty_serveAll
    (requests : List (Request n)) :
    (serveAll requests).IsWeighty := by
  induction requests using List.reverseRecOn with
  | nil => exact isWeighty_singletons n
  | append_singleton requests request ih =>
      rw [serveAll_concat]
      exact ih.serve (hasClasses_serveAll requests) request

theorem IsWeighty.serveInBytes?_eq
    (h : p.IsWeighty)
    (hClasses : p.HasClasses s)
    (hFew : n < 2 ^ UInt8.size)
    (request : Request n) :
    p.serveInBytes? request = some (p.serve request) := by
  have hLt : ∀ x : Fin n, (x : Nat) < p.size :=
    fun x => hClasses.size.symm ▸ x.isLt
  cases request with
  | find x => rfl
  | same a b => rfl
  | union a b =>
      have hUnion := h.unionInBytes?_eq hClasses.isRanked (hLt a)
        (hLt b) (hClasses.size.symm ▸ hFew)
      rw [serveInBytes?, hUnion]
      rfl

theorem serveAllInBytes?_eq
    (hFew : n < 2 ^ UInt8.size)
    (requests : List (Request n)) :
    serveAllInBytes? requests = some (serveAll requests) := by
  induction requests using List.reverseRecOn with
  | nil => rfl
  | append_singleton requests request ih =>
      have hStep := (isWeighty_serveAll requests).serveInBytes?_eq
        (hasClasses_serveAll requests) hFew request
      rw [serveAllInBytes?, List.foldlM_append, serveAll_concat]
      refine (bind_of_eq_some ih _).trans ?_
      rw [List.foldlM_cons, hStep]
      rfl

/-
  How low ranks are while the sets of a partition are the classes
  of an equivalence, and how short every way up is that follows
  parent links.
-/
structure StaysLow
    (p : Partition)
    (s : Setoid (Fin n)) : Prop where
  rank_lt :
    ∀ x : Fin n,
      p.parentOf x ≠ x → p.rankOf x < p.rankOf (p.parentOf x)
  two_pow_rank_le :
    ∀ r : Fin n,
      p.parentOf r = r →
        2 ^ p.rankOf r ≤ Nat.card {x : Fin n // s x r}
  rises_le : ∀ {k x y : Nat}, p.Rises k x y → k ≤ Nat.log 2 n
  rises_find : ∀ x : Fin n, ∃ k, p.Rises k x (p.find x).1

/-
  Whatever is asked, in any order, ranks stay low.  Bytes hold
  them all, unless there are `2 ^ 256` elements or more.
-/
theorem staysLow_serveAll
    (requests : List (Request n)) :
    (serveAll requests).StaysLow (classes requests) ∧
      (n < 2 ^ 256 →
        serveAllInBytes? requests = some (serveAll requests)) := by
  have h := hasClasses_serveAll requests
  have hWeighty := isWeighty_serveAll requests
  have hLt : ∀ x : Fin n, (x : Nat) < (serveAll requests).size :=
    fun x => h.size.symm ▸ x.isLt
  refine ⟨⟨?_, ?_, ?_, ?_⟩, ?_⟩
  · exact fun x hBelow => h.isRanked.rank_lt hBelow
  · intro r hTop
    have hRoot := root_of_parentOf_eq hTop
    rw [h.card_class r, hRoot]
    exact hWeighty r (mem_roots.mpr ⟨hLt r, hRoot⟩)
  · intro k x y hRises
    rw [← h.size]
    exact hWeighty.rises_le_log h.isRanked hRises
  · exact fun x => (h.isRanked.climbs_root (hLt x)).exists_rises
  · exact fun hFew => serveAllInBytes?_eq hFew requests

/- Two pairs that are joined to one set of four. -/
def joinedPairs : List (Request 4) :=
  [.union 0 1, .same 1 2, .union 2 3, .union 1 3]

theorem staysLow_of_joinedPairs :
    4 < 2 ^ 256 ∧
      serveAllInBytes? joinedPairs = some (serveAll joinedPairs) ∧
      (serveAll joinedPairs).rankOf 0 = 2 ∧
      2 ^ 2 ≤ Nat.card {x : Fin 4 // classes joinedPairs x 0} ∧
      (serveAll joinedPairs).Rises 2 3 0 ∧
      2 ≤ Nat.log 2 4 := by
  rcases staysLow_serveAll joinedPairs with ⟨hLow, hBytes⟩
  have hFew : 4 < 2 ^ 256 := by decide
  have hRank : (serveAll joinedPairs).rankOf 0 = 2 := by decide
  have hTop : (serveAll joinedPairs).parentOf 0 = 0 := by decide
  have hRises : (serveAll joinedPairs).Rises 2 3 0 :=
    .up (by decide) (.up (by decide) (.stay 0))
  have hCard := hLow.two_pow_rank_le 0 hTop
  refine ⟨hFew, hBytes hFew, hRank, ?_, hRises,
    hLow.rises_le hRises⟩
  exact hRank ▸ hCard

end Runs

end Partition

end DotLang
