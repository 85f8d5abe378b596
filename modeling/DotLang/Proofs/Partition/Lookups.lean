import DotLang.Proofs.Lookups
import DotLang.Proofs.Partition.Classes

/-
  This file proves that looking up and joining sets of elements
  that exist ends, and looks up nothing that is not there.

  Both are told once more with parents and ranks that may be
  missing, and with walks that have no bound.

  Key definitions include:
    * `Partition.find?`
    * `Partition.union?`

  Key theorems include:
    * `Partition.IsRanked.find?_eq`
    * `Partition.IsRanked.union?_eq`
-/

------------------------------------------------------------
-- Parents and Ranks
------------------------------------------------------------

namespace DotLang

namespace Partition

variable {p q : Partition} {x y root : Nat}

/- The parent of an element, if it exists. -/
def parentOf? (p : Partition) (x : Nat) : Option Nat :=
  p.parent[x]?

/- The rank of an element, if it exists. -/
def rankOf? (p : Partition) (x : Nat) : Option Nat :=
  p.rank[x]?

/- Hang an element under another one, if it exists. -/
def setParent? (p : Partition) (x y : Nat) : Option Partition :=
  if x < p.parent.size then some (p.setParent x y) else none

/- Give an element another rank, if it exists. -/
def setRank? (p : Partition) (x rank : Nat) : Option Partition :=
  if x < p.rank.size then
    some { p with rank := p.rank.setIfInBounds x rank }
  else
    none

theorem parentOf?_eq
    (hx : x < p.size) :
    p.parentOf? x = some (p.parentOf x) :=
  getElem?_eq_some_getD hx x

theorem IsRanked.rankOf?_eq
    (hp : p.IsRanked)
    (hx : x < p.size) :
    p.rankOf? x = some (p.rankOf x) :=
  getElem?_eq_some_getD (hx.trans_eq hp.size_rank.symm) 0

theorem setParent?_eq
    (hx : x < p.size)
    (y : Nat) :
    p.setParent? x y = some (p.setParent x y) :=
  if_pos hx

------------------------------------------------------------
-- Finding
------------------------------------------------------------

/- Climb along parents to an element that is its own parent. -/
def root? (p : Partition) (x : Nat) : Option Nat := do
  let above ← p.parentOf? x
  if above = x then
    some x
  else
    p |>.root? above
partial_fixpoint

/- Climb once more, and hang what is met right under the root. -/
def compress?
    (root : Nat)
    (p : Partition)
    (x : Nat) : Option Partition := do
  let above ← p.parentOf? x
  if above = root then
    some p
  else
    let p ← p.setParent? x root
    p |>.compress? root above
partial_fixpoint

/- Look up the set of an element. -/
def find? (p : Partition) (x : Nat) : Option (Nat × Partition) := do
  let root ← p.root? x
  let p ← compress? root p x
  return (root, p)

theorem Climbs.root?_eq
    (h : p.Climbs x root) :
    p.root? x = some root := by
  induction h with
  | stop hx hTop =>
      rw [root?, bind_of_eq_some (parentOf?_eq hx), if_pos hTop]
  | up hx hBelow _ ih =>
      rw [root?, bind_of_eq_some (parentOf?_eq hx), if_neg hBelow,
        ih]

theorem Compresses.compress?_eq
    (h : Compresses root p x q) :
    compress? root p x = some q := by
  induction h with
  | stop hx hTop =>
      rw [compress?, bind_of_eq_some (parentOf?_eq hx), if_pos hTop]
  | up hx hBelow _ ih =>
      rw [compress?, bind_of_eq_some (parentOf?_eq hx),
        if_neg hBelow, bind_of_eq_some (setParent?_eq hx _), ih]

theorem IsRanked.find?_eq
    (hp : p.IsRanked)
    (hx : x < p.size) :
    p.find? x = some (p.find x) := by
  rw [find?, bind_of_eq_some (hp.climbs_root hx).root?_eq]
  exact bind_of_eq_some (hp.compresses_find hx).compress?_eq _

------------------------------------------------------------
-- Joining
------------------------------------------------------------

/- Hang the root of lower rank under the other one. -/
def link? (p : Partition) (a b : Nat) : Option Partition := do
  let rankA ← p.rankOf? a
  let rankB ← p.rankOf? b
  if rankA < rankB then
    p.setParent? a b
  else if rankB < rankA then
    p.setParent? b a
  else
    let p ← p.setParent? b a
    p.setRank? a (rankA + 1)

/- Join the sets of two elements. -/
def union?
    (p : Partition)
    (a b : Nat) : Option (Bool × Partition) := do
  let (rootA, p) ← p.find? a
  let (rootB, p) ← p.find? b
  if rootA = rootB then
    return (false, p)
  else
    let linked ← p.link? rootA rootB
    return (true, { linked with count := p.count - 1 })

section Joining

variable {a b : Nat}

theorem IsRanked.link?_eq
    (hp : p.IsRanked)
    (ha : a < p.size)
    (hb : b < p.size) :
    p.link? a b = some (p.link a b) := by
  have hRank : a < (p.setParent b a).rank.size :=
    ha.trans_eq hp.size_rank.symm
  rw [link?, link, bind_of_eq_some (hp.rankOf?_eq ha),
    bind_of_eq_some (hp.rankOf?_eq hb), setParent?_eq ha,
    setParent?_eq hb]
  split
  · rfl
  split
  · rfl
  · exact if_pos hRank

theorem IsRanked.union?_eq
    (hp : p.IsRanked)
    (ha : a < p.size)
    (hb : b < p.size) :
    p.union? a b = some (p.union a b) := by
  have hA := (find_shortens hp a).2
  have hB := (find_shortens hA.isRanked b).2
  have hSize := (hA.trans hB).size
  have hFindB := hA.isRanked.find?_eq (hA.size.symm ▸ hb)
  have hRootA : (p.find a).1 < ((p.find a).2.find b).2.size :=
    hSize.symm ▸ hp.root_lt ha
  have hRootB :
      ((p.find a).2.find b).1 < ((p.find a).2.find b).2.size :=
    hB.size.symm ▸ hA.isRanked.root_lt (hA.size.symm ▸ hb)
  have hLink := hB.isRanked.link?_eq hRootA hRootB
  rw [union?, bind_of_eq_some (hp.find?_eq ha)]
  refine (bind_of_eq_some hFindB _).trans ?_
  rw [union_eq_ite]
  by_cases hSame : (p.find a).1 = ((p.find a).2.find b).1
  · rw [if_pos hSame]
    exact if_pos hSame
  · rw [if_neg hSame]
    exact (if_neg hSame).trans (bind_of_eq_some hLink _)

end Joining

end Partition

end DotLang
