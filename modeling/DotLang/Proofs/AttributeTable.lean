import DotLang.AttributeTable.Basic
import Mathlib.Data.List.Nodup

/-
  This file proves what writing to an attribute table keeps:
  its names stay distinct, and its values stay those written.

  Key definitions include:
    * `AttributeTable.IsMap`

  Key theorems include:
    * `AttributeTable.IsMap.setAll`
    * `AttributeTable.setAll_empty`
-/

------------------------------------------------------------
-- Entries
------------------------------------------------------------

namespace DotLang

/- A name that is new goes to the end. -/
theorem setEntry_of_not_mem
    {name : String}
    {entries : List Attribute}
    (value : Value)
    (hNew : name ∉ entries.map Attribute.name) :
    setEntry name value entries = entries ++ [⟨name, value⟩] := by
  induction entries with
  | nil => rfl
  | cons entry entries ih =>
      simp only [List.map_cons, List.mem_cons, not_or] at hNew
      rw [setEntry, if_neg (Ne.symm hNew.1), ih hNew.2]
      rfl

theorem names_setEntry
    (name : String)
    (value : Value)
    (entries : List Attribute) :
    (setEntry name value entries).map Attribute.name =
      if name ∈ entries.map Attribute.name then
        entries.map Attribute.name
      else
        entries.map Attribute.name ++ [name] := by
  induction entries with
  | nil => rfl
  | cons entry entries ih =>
      by_cases hName : entry.name = name
      · simp [setEntry, hName]
      · rw [setEntry, if_neg hName, List.map_cons, ih]
        by_cases hMem : name ∈ entries.map Attribute.name
        · simp [hMem]
        · simp [hMem, Ne.symm hName]

theorem mem_setEntry
    {name : String}
    {value : Value}
    {entries : List Attribute}
    {a : Attribute}
    (hMem : a ∈ setEntry name value entries) :
    a ∈ entries ∨ a.value = value := by
  induction entries with
  | nil =>
      rw [setEntry, List.mem_singleton] at hMem
      exact .inr (congrArg Attribute.value hMem)
  | cons entry entries ih =>
      by_cases hName : entry.name = name
      · rw [setEntry, if_pos hName] at hMem
        rcases List.mem_cons.mp hMem with rfl | hMem
        · exact .inr rfl
        · exact .inl (List.mem_cons_of_mem _ hMem)
      · rw [setEntry, if_neg hName] at hMem
        rcases List.mem_cons.mp hMem with rfl | hMem
        · exact .inl List.mem_cons_self
        · rcases ih hMem with hMem | hValue
          · exact .inl (List.mem_cons_of_mem _ hMem)
          · exact .inr hValue

------------------------------------------------------------
-- Tables as Maps
------------------------------------------------------------

namespace AttributeTable

variable {IsGood : Value → Prop} {t : AttributeTable}

/- The names of a table are distinct and its values are good. -/
structure IsMap
    (IsGood : Value → Prop)
    (t : AttributeTable) : Prop where
  nodup : t.names.Nodup
  good : ∀ a ∈ t.entries, IsGood a.value

theorem isMap_empty : empty.IsMap IsGood where
  nodup := List.nodup_nil
  good := by
    intro a ha
    cases ha

theorem IsMap.of_nodup
    (h : t.names.Nodup) :
    t.IsMap fun _ => True where
  nodup := h
  good _ _ := trivial

theorem IsMap.mono
    {IsGood' : Value → Prop}
    (h : t.IsMap IsGood)
    (hGood : ∀ value, IsGood value → IsGood' value) :
    t.IsMap IsGood' where
  nodup := h.nodup
  good a ha := hGood a.value (h.good a ha)

theorem IsMap.set
    (h : t.IsMap IsGood)
    (name : String)
    {value : Value}
    (hValue : IsGood value) :
    (t.set name value).IsMap IsGood where
  nodup := by
    unfold AttributeTable.set names
    rw [names_setEntry]
    by_cases hMem : name ∈ t.entries.map Attribute.name
    · rw [if_pos hMem]
      exact h.nodup
    · rw [if_neg hMem, ← List.concat_eq_append]
      exact h.nodup.concat hMem
  good := by
    intro a ha
    rcases mem_setEntry ha with hMem | hEq
    · exact h.good a hMem
    · rwa [hEq]

theorem IsMap.setAll
    (h : t.IsMap IsGood)
    {attributes : List Attribute}
    (hValues : ∀ a ∈ attributes, IsGood a.value) :
    (t.setAll attributes).IsMap IsGood := by
  induction attributes generalizing t with
  | nil => exact h
  | cons a attributes ih =>
      exact ih (h.set a.name (hValues a (by simp)))
        (fun b hb => hValues b (by simp [hb]))

/- Distinct names go to the end one after the other. -/
theorem setAll_of_nodup
    {attributes : List Attribute}
    (hNodup : (t.names ++ attributes.map Attribute.name).Nodup) :
    t.setAll attributes = ⟨t.entries ++ attributes⟩ := by
  induction attributes generalizing t with
  | nil => simp [AttributeTable.setAll]
  | cons a attributes ih =>
      have hNew : a.name ∉ t.entries.map Attribute.name := by
        intro hMem
        have hDisjoint := (List.nodup_append'.mp hNodup).2.2
        exact hDisjoint hMem (by simp)
      have hSet : t.set a.name a.value = ⟨t.entries ++ [a]⟩ :=
        congrArg AttributeTable.mk (setEntry_of_not_mem _ hNew)
      have hNext :
          t.setAll (a :: attributes) =
            (t.set a.name a.value).setAll attributes := rfl
      rw [hNext, hSet, ih]
      · simp
      · simpa [names] using hNodup

theorem setAll_append
    (t : AttributeTable)
    (xs ys : List Attribute) :
    t.setAll (xs ++ ys) = (t.setAll xs).setAll ys :=
  List.foldl_append

theorem ofList_append
    (xs ys : List Attribute) :
    ofList (xs ++ ys) = (ofList xs).setAll ys :=
  setAll_append empty xs ys

/- The entries of a map make it again. -/
theorem setAll_empty
    (h : t.IsMap IsGood) :
    empty.setAll t.entries = t := by
  rw [setAll_of_nodup]
  · rfl
  · exact h.nodup

end AttributeTable

end DotLang
