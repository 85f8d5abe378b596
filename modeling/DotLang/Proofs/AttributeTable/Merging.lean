import DotLang.Proofs.AttributeTable

/-
  This file proves how the writes to an attribute table act on
  its names and values, and the laws of merging tables.

  The laws rest on one fact: entries that were written to a
  table with distinct names may be set one by one, or after what
  the table held before.

  Key theorems include:
    * `AttributeTable.get?_set`
    * `AttributeTable.get?_erase`
    * `AttributeTable.setAll_entries_setAll`
    * `AttributeTable.merge_merge`
    * `AttributeTable.merge_self`
-/

------------------------------------------------------------
-- Writing to Entries
------------------------------------------------------------

namespace DotLang

/- Of two values for one name the second one stays. -/
theorem setEntry_setEntry
    (name : String)
    (first second : Value)
    (entries : List Attribute) :
    setEntry name second (setEntry name first entries) =
      setEntry name second entries := by
  induction entries with
  | nil => simp [setEntry]
  | cons entry entries ih =>
      by_cases hName : entry.name = name
      · simp [setEntry, hName]
      · simp [setEntry, hName, ih]

/-
  The values of two names may be set in any order once the first
  one has its place.
-/
theorem setEntry_comm
    {name other : String}
    {entries : List Attribute}
    (hNe : name ≠ other)
    (hMem : name ∈ entries.map Attribute.name)
    (value otherValue : Value) :
    setEntry name value (setEntry other otherValue entries) =
      setEntry other otherValue (setEntry name value entries) := by
  induction entries with
  | nil => cases hMem
  | cons entry entries ih =>
      by_cases hName : entry.name = name
      · simp [setEntry, hName, hNe]
      · have hTail : name ∈ entries.map Attribute.name := by
          simpa [Ne.symm hName] using hMem
        by_cases hOther : entry.name = other
        · simp [setEntry, hOther, Ne.symm hNe]
        · simp [setEntry, hName, hOther, ih hTail]

/- A value that is there already may be set again. -/
theorem setEntry_of_mem
    {a : Attribute}
    {entries : List Attribute}
    (hNodup : (entries.map Attribute.name).Nodup)
    (hMem : a ∈ entries) :
    setEntry a.name a.value entries = entries := by
  induction entries with
  | nil => cases hMem
  | cons entry entries ih =>
      rw [List.map_cons, List.nodup_cons] at hNodup
      rcases List.mem_cons.mp hMem with rfl | hMem
      · rw [setEntry, if_pos rfl]
      · have hName : entry.name ≠ a.name := by
          intro hEq
          exact hNodup.1 (hEq ▸ List.mem_map_of_mem hMem)
        rw [setEntry, if_neg hName, ih hNodup.2 hMem]

theorem names_eraseEntry
    (name : String)
    (entries : List Attribute) :
    (eraseEntry name entries).map Attribute.name =
      (entries.map Attribute.name).erase name := by
  induction entries with
  | nil => rfl
  | cons entry entries ih =>
      by_cases hName : entry.name = name
      · simp [eraseEntry, hName]
      · simp [eraseEntry, hName, ih]

namespace AttributeTable

variable {t : AttributeTable}

------------------------------------------------------------
-- Names and Values
------------------------------------------------------------

theorem names_set
    (t : AttributeTable)
    (name : String)
    (value : Value) :
    (t.set name value).names =
      if name ∈ t.names then t.names else t.names ++ [name] :=
  names_setEntry name value t.entries

theorem mem_names_set
    {name other : String}
    {value : Value} :
    other ∈ (t.set name value).names ↔
      other ∈ t.names ∨ other = name := by
  rw [names_set]
  by_cases hMem : name ∈ t.names
  · rw [if_pos hMem]
    constructor
    · exact Or.inl
    · rintro (hOther | rfl)
      · exact hOther
      · exact hMem
  · rw [if_neg hMem, List.mem_append, List.mem_singleton]

theorem names_erase
    (t : AttributeTable)
    (name : String) :
    (t.erase name).names = t.names.erase name :=
  names_eraseEntry name t.entries

/- A name has a value exactly if it is among the names. -/
theorem get?_eq_none_iff
    {name : String} :
    t.get? name = none ↔ name ∉ t.names := by
  simp [get?, names]

/- Setting a name changes what that name stands for. -/
theorem get?_set
    (t : AttributeTable)
    (name other : String)
    (value : Value) :
    (t.set name value).get? other =
      if name = other then some value else t.get? other := by
  rcases t with ⟨entries⟩
  simp only [get?, AttributeTable.set]
  induction entries with
  | nil => by_cases hOther : name = other <;> simp [setEntry, hOther]
  | cons entry entries ih =>
      by_cases hName : entry.name = name
      · by_cases hOther : name = other
        · simp [setEntry, hName, hOther]
        · simp [setEntry, hName, hOther]
      · rw [setEntry, if_neg hName]
        by_cases hEntry : entry.name = other
        · have hOther : name ≠ other := by
            rintro rfl
            exact hName hEntry
          simp [hEntry, hOther]
        · simpa [hEntry] using ih

/- Leaving a name out leaves all other names alone. -/
theorem get?_erase
    (hNodup : t.names.Nodup)
    (name other : String) :
    (t.erase name).get? other =
      if name = other then none else t.get? other := by
  by_cases hOther : name = other
  · rw [if_pos hOther, get?_eq_none_iff, names_erase, ← hOther]
    exact hNodup.not_mem_erase
  · rw [if_neg hOther]
    rcases t with ⟨entries⟩
    clear hNodup
    simp only [get?, AttributeTable.erase]
    induction entries with
    | nil => rfl
    | cons entry entries ih =>
        by_cases hName : entry.name = name
        · simp [eraseEntry, hName, hOther]
        · rw [eraseEntry, if_neg hName]
          by_cases hEntry : entry.name = other
          · simp [hEntry]
          · simpa [hEntry] using ih

------------------------------------------------------------
-- Setting Entries
------------------------------------------------------------

theorem set_set
    (t : AttributeTable)
    (name : String)
    (first second : Value) :
    (t.set name first).set name second = t.set name second :=
  congrArg mk (setEntry_setEntry name first second t.entries)

/- A name that has its place may be set before other names. -/
theorem setAll_set
    {name : String}
    {attributes : List Attribute}
    (hMem : name ∈ t.names)
    (hNew : name ∉ attributes.map Attribute.name)
    (value : Value) :
    (t.setAll attributes).set name value =
      (t.set name value).setAll attributes := by
  induction attributes generalizing t with
  | nil => rfl
  | cons a attributes ih =>
      simp only [List.map_cons, List.mem_cons, not_or] at hNew
      have hSwap :
          (t.set a.name a.value).set name value =
            (t.set name value).set a.name a.value :=
        congrArg mk (setEntry_comm hNew.1 hMem value a.value)
      have hMem' : name ∈ (t.set a.name a.value).names :=
        mem_names_set.mpr (Or.inl hMem)
      calc
        ((t.set a.name a.value).setAll attributes).set name value
            = ((t.set a.name a.value).set name value).setAll
                attributes := ih hMem' hNew.2
        _ = ((t.set name value).set a.name a.value).setAll
              attributes := by rw [hSwap]

/- An entry may be set within a list of entries or behind it. -/
theorem setAll_setEntry
    {entries : List Attribute}
    (hNodup : (entries.map Attribute.name).Nodup)
    (t : AttributeTable)
    (name : String)
    (value : Value) :
    t.setAll (setEntry name value entries) =
      (t.setAll entries).set name value := by
  induction entries generalizing t with
  | nil => rfl
  | cons entry entries ih =>
      rw [List.map_cons, List.nodup_cons] at hNodup
      by_cases hName : entry.name = name
      · subst hName
        have hMem :
            entry.name ∈ (t.set entry.name entry.value).names :=
          mem_names_set.mpr (Or.inr rfl)
        rw [setEntry, if_pos rfl]
        calc
          (t.set entry.name value).setAll entries
              = ((t.set entry.name entry.value).set
                  entry.name value).setAll entries := by
                rw [set_set]
          _ = ((t.set entry.name entry.value).setAll entries).set
                entry.name value :=
              (setAll_set hMem hNodup.1 value).symm
      · rw [setEntry, if_neg hName]
        exact ih hNodup.2 (t.set entry.name entry.value)

/-
  The entries of a table that attributes were set in give what
  its entries give before, and then the attributes.
-/
theorem setAll_entries_setAll
    {u : AttributeTable}
    (hNodup : u.names.Nodup)
    (t : AttributeTable)
    (attributes : List Attribute) :
    t.setAll (u.setAll attributes).entries =
      (t.setAll u.entries).setAll attributes := by
  induction attributes generalizing u with
  | nil => rfl
  | cons a attributes ih =>
      have hNodup' : (u.set a.name a.value).names.Nodup :=
        ((IsMap.of_nodup hNodup).set a.name trivial).nodup
      calc
        t.setAll ((u.set a.name a.value).setAll attributes).entries
            = (t.setAll (u.set a.name a.value).entries).setAll
                attributes := ih hNodup'
        _ = ((t.setAll u.entries).set a.name a.value).setAll
              attributes :=
            congrArg (·.setAll attributes)
              (setAll_setEntry hNodup t a.name a.value)

------------------------------------------------------------
-- Merging
------------------------------------------------------------

/- Merging is associative, the order of the entries included. -/
theorem merge_merge
    {u : AttributeTable}
    (hNodup : u.names.Nodup)
    (t v : AttributeTable) :
    (t.merge u).merge v = t.merge (u.merge v) :=
  (setAll_entries_setAll hNodup t v.entries).symm

/- Setting what a table holds already changes nothing. -/
theorem setAll_of_subset
    {attributes : List Attribute}
    (hNodup : t.names.Nodup)
    (hSubset : attributes ⊆ t.entries) :
    t.setAll attributes = t := by
  induction attributes with
  | nil => rfl
  | cons a attributes ih =>
      rw [List.cons_subset] at hSubset
      have hSet : t.set a.name a.value = t :=
        congrArg mk (setEntry_of_mem hNodup hSubset.1)
      calc
        (t.set a.name a.value).setAll attributes
            = t.setAll attributes := by rw [hSet]
        _ = t := ih hSubset.2

theorem merge_self
    (hNodup : t.names.Nodup) :
    t.merge t = t :=
  setAll_of_subset hNodup (List.Subset.refl _)

theorem merge_empty
    (t : AttributeTable) :
    t.merge empty = t := rfl

/- Merging the table that a list makes is setting the list. -/
theorem merge_ofList
    (t : AttributeTable)
    (attributes : List Attribute) :
    t.merge (ofList attributes) = t.setAll attributes :=
  setAll_entries_setAll (u := empty) List.nodup_nil t attributes

end AttributeTable

end DotLang
