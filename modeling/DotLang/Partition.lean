/-
  This file defines partitions of the numbers below some bound
  into disjoint sets, as a forest of parent links.

  A number without a parent of its own stands for its set.
  Looking a set up makes the path to it short, and joining two
  sets hangs the one of lower rank under the other.

  Key definitions include:
    * `Partition`
    * `Partition.find`
    * `Partition.same`
    * `Partition.union`
-/

------------------------------------------------------------
-- Partitions
------------------------------------------------------------

namespace DotLang

/- Parent links, ranks, and the number of sets. -/
structure Partition where
  parent : Array Nat
  rank : Array Nat
  count : Nat
deriving DecidableEq, Repr, Inhabited

namespace Partition

/- The partition of the numbers below `n` into single ones. -/
def singletons (n : Nat) : Partition where
  parent := Array.range n
  rank := Array.replicate n 0
  count := n

/- The number of elements. -/
def size (p : Partition) : Nat :=
  p.parent.size

/- The parent of an element, which a root is itself. -/
def parentOf (p : Partition) (x : Nat) : Nat :=
  p.parent.getD x x

/- The rank of an element. -/
def rankOf (p : Partition) (x : Nat) : Nat :=
  p.rank.getD x 0

/- Hang an element under another one. -/
def setParent (p : Partition) (x y : Nat) : Partition :=
  { p with parent := p.parent.setIfInBounds x y }

------------------------------------------------------------
-- Finding
------------------------------------------------------------

/- The element at the end of at most `bound` parent links. -/
def rootWithin (p : Partition) : Nat → Nat → Nat
| 0, x => x
| bound + 1, x =>
    if p.parentOf x = x then
      x
    else
      rootWithin p bound (p.parentOf x)

/- The element that stands for the set of an element. -/
def root (p : Partition) (x : Nat) : Nat :=
  p.rootWithin p.size x

/-
  Hang the elements on the path to a root right under it, along
  at most `bound` parent links.
-/
def compressWithin
    (root : Nat) : Nat → Partition → Nat → Partition
| 0, p, _ => p
| bound + 1, p, x =>
    let above := p.parentOf x
    if above = root then
      p
    else
      compressWithin root bound (p.setParent x root) above

/- Look up the set of an element. -/
def find (p : Partition) (x : Nat) : Nat × Partition :=
  let root := p.root x
  (root, compressWithin root p.size p x)

/- Two elements are in the same set. -/
def same (p : Partition) (a b : Nat) : Bool × Partition :=
  let (rootA, p) := p.find a
  let (rootB, p) := p.find b
  (rootA = rootB, p)

------------------------------------------------------------
-- Joining
------------------------------------------------------------

/- Hang the root of lower rank under the other one. -/
def link (p : Partition) (a b : Nat) : Partition :=
  if p.rankOf a < p.rankOf b then
    p.setParent a b
  else if p.rankOf b < p.rankOf a then
    p.setParent b a
  else
    { p.setParent b a with
      rank := p.rank.setIfInBounds a (p.rankOf a + 1) }

/-
  Join the sets of two elements.  The answer says whether they
  were different sets before.
-/
def union (p : Partition) (a b : Nat) : Bool × Partition :=
  let (rootA, p) := p.find a
  let (rootB, p) := p.find b
  if rootA = rootB then
    (false, p)
  else
    (true, { p.link rootA rootB with count := p.count - 1 })

end Partition

end DotLang
