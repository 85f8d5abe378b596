import Mathlib.Data.List.Nodup

/-
  This file says what is left of a list without its repetitions:
  each item once, in the order of the first time it was seen.

  Key definitions include:
    * `IsFirstSeen`

  Key theorems include:
    * `isFirstSeen_eraseDups`
    * `eraseDups_append_of_subset`
-/

------------------------------------------------------------
-- Items First Seen
------------------------------------------------------------

namespace DotLang

variable {α : Type}

/-
  The items are those that were seen, each once.  Of any two of
  them the former was seen before the latter ever was.
-/
structure IsFirstSeen
    (items seen : List α) : Prop where
  nodup : items.Nodup
  mem_iff : ∀ item, item ∈ items ↔ item ∈ seen
  ordered :
    items.Pairwise fun former latter =>
      ∃ before after,
        seen = before ++ former :: after ∧ latter ∉ before

/- The order of what passes a test is that of the whole. -/
private theorem seenBefore_of_filter
    {test : α → Bool}
    {seen before after : List α}
    {former latter : α}
    (hSeen : seen.filter test = before ++ former :: after)
    (hLatter : test latter = true)
    (hBefore : latter ∉ before) :
    ∃ front back, seen = front ++ former :: back ∧ latter ∉ front := by
  rcases List.filter_eq_append_iff.mp hSeen with
    ⟨front, back, rfl, rfl, hBack⟩
  rcases List.filter_eq_cons_iff.mp hBack with
    ⟨skipped, others, rfl, hSkipped, _, _⟩
  refine ⟨front ++ skipped, others, by simp, ?_⟩
  intro hMem
  rcases List.mem_append.mp hMem with hFront | hOther
  · exact hBefore (List.mem_filter.mpr ⟨hFront, hLatter⟩)
  · exact hSkipped latter hOther hLatter

theorem isFirstSeen_eraseDups
    [DecidableEq α] :
    ∀ seen : List α, IsFirstSeen seen.eraseDups seen
| [] => ⟨.nil, by simp, .nil⟩
| first :: seen => by
    have hRest :=
      isFirstSeen_eraseDups (seen.filter fun item => !item == first)
    rw [List.eraseDups_cons]
    refine ⟨List.nodup_cons.mpr ⟨?_, hRest.nodup⟩, ?_,
      List.pairwise_cons.mpr ⟨?_, ?_⟩⟩
    · rw [hRest.mem_iff]
      simp
    · intro item
      rw [List.mem_cons, List.mem_cons, hRest.mem_iff]
      by_cases hItem : item = first <;> simp [hItem]
    · intro latter _
      exact ⟨[], seen, rfl, List.not_mem_nil⟩
    · refine hRest.ordered.imp_of_mem ?_
      rintro former latter _ hMem ⟨before, after, hSeen, hBefore⟩
      have hLatter := (hRest.mem_iff latter).mp hMem
      have hTest := (List.mem_filter.mp hLatter).2
      rcases seenBefore_of_filter hSeen hTest hBefore with
        ⟨front, back, rfl, hFront⟩
      refine ⟨first :: front, back, rfl, ?_⟩
      have hNe : latter ≠ first := by simpa using hTest
      simp [hNe, hFront]
termination_by seen => seen.length
decreasing_by
  exact Nat.lt_succ_of_le (List.length_filter_le _ _)

------------------------------------------------------------
-- Lists without Repetitions
------------------------------------------------------------

section

variable [DecidableEq α] {items others : List α}

theorem eraseDups_of_nodup
    (h : items.Nodup) :
    items.eraseDups = items := by
  induction items with
  | nil => rfl
  | cons item items ih =>
      rcases List.nodup_cons.mp h with ⟨hNew, hRest⟩
      have hAll : (items.filter fun b => !b == item) = items := by
        rw [List.filter_eq_self]
        intro b hb
        have hNe : b ≠ item := fun hEq => hNew (hEq ▸ hb)
        simpa using hNe
      rw [List.eraseDups_cons, hAll, ih hRest]

/- What is seen once more makes no difference. -/
theorem eraseDups_append_of_subset
    (h : items.Nodup)
    (hSub : others ⊆ items) :
    (items ++ others).eraseDups = items := by
  have hNone : others.removeAll items = [] := by
    rw [List.removeAll, List.filter_eq_nil_iff]
    intro b hb
    simpa using hSub hb
  rw [List.eraseDups_append, hNone, eraseDups_of_nodup h]
  exact List.append_nil items

end

end DotLang
