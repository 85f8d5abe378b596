import Mathlib.Data.List.Basic

/-
  This file proves that lookups that succeed are as good as what
  they find: in an array, one after the other, and for all items
  of a list.

  Key theorems include:
    * `getElem?_eq_some_getD`
    * `bind_of_eq_some`
    * `mapM_eq_some_map`
-/

------------------------------------------------------------
-- Single Lookups
------------------------------------------------------------

namespace DotLang

section Lookups

variable {α β : Type} {xs : List α}

/- A place of an array that is in range is read. -/
theorem getElem?_eq_some_getD
    {items : Array α}
    {i : Nat}
    (hi : i < items.size)
    (x : α) :
    items[i]? = some (items.getD i x) := by
  rw [Array.getElem?_eq_getElem hi, Array.getD_eq_getD_getElem?,
    Array.getElem?_eq_getElem hi, Option.getD_some]

------------------------------------------------------------
-- Several Lookups
------------------------------------------------------------

/- What comes after a lookup goes on with what was found. -/
theorem bind_of_eq_some
    {look : Option α}
    {x : α}
    (hLook : look = some x)
    (next : α → Option β) :
    look >>= next = next x := by
  rw [hLook]
  rfl

theorem mapM_eq_some_map
    {look : α → Option β}
    {f : α → β}
    (hAll : ∀ x ∈ xs, look x = some (f x)) :
    xs.mapM look = some (xs.map f) := by
  induction xs with
  | nil => rfl
  | cons x xs ih =>
      rcases List.forall_mem_cons.mp hAll with ⟨hx, hRest⟩
      rw [List.mapM_cons, hx, ih hRest]
      rfl

theorem findM?_eq_some_find?
    {look : α → Option Bool}
    {p : α → Bool}
    (hAll : ∀ x ∈ xs, look x = some (p x)) :
    xs.findM? look = some (xs.find? p) := by
  induction xs with
  | nil => rfl
  | cons x xs ih =>
      rcases List.forall_mem_cons.mp hAll with ⟨hx, hRest⟩
      rw [List.findM?, List.find?, hx, ih hRest]
      cases p x <;> rfl

end Lookups

end DotLang
