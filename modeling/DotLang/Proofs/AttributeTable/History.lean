import DotLang.Proofs.AttributeTable.Merging
import Mathlib.Data.List.Forall2

/-
  This file proves that an attribute table is what its history
  makes it: a map that the last write to a name decides, in the
  order in which the names came in.

  A history lists the names that were given a value or left out,
  one at a time, whatever writes they were part of.

  Key definitions include:
    * `TableEvent`
    * `TableWrite`
    * `IsLatest`
    * `IsEntrance`
    * `AttributeTable.ofWrites`
    * `AttributeTable.remove`
    * `AttributeTable.Records`

  Key theorems include:
    * `AttributeTable.Records.run`
    * `AttributeTable.records_foldl`
    * `AttributeTable.isOrderedMap_ofWrites`
-/

------------------------------------------------------------
-- Events and Writes
------------------------------------------------------------

namespace DotLang

/- A name is given a value, or it is left out. -/
inductive TableEvent where
| put (name : String) (value : Value)
| drop (name : String)
deriving DecidableEq, Repr, Inhabited

namespace TableEvent

def name : TableEvent → String
| put name _ => name
| drop name => name

def run (t : AttributeTable) : TableEvent → AttributeTable
| put name value => t.set name value
| drop name => t.erase name

def ofAttribute (a : Attribute) : TableEvent :=
  put a.name a.value

end TableEvent

/- The ways of writing to a table. -/
inductive TableWrite where
| set (name : String) (value : Value)
| setText (name text : String)
| remove (name : String)
| merge (other : AttributeTable)
| setAll (attributes : List Attribute)
deriving DecidableEq, Repr, Inhabited

namespace TableWrite

def run (t : AttributeTable) : TableWrite → AttributeTable
| set name value => t.set name value
| setText name text => t.set name (.plain text)
| remove name => t.erase name
| merge other => t.merge other
| setAll attributes => t.setAll attributes

/- What a write does, one name at a time. -/
def events : TableWrite → List TableEvent
| set name value => [.put name value]
| setText name text => [.put name (.plain text)]
| remove name => [.drop name]
| merge other => other.entries.map .ofAttribute
| setAll attributes => attributes.map .ofAttribute

end TableWrite

------------------------------------------------------------
-- Histories
------------------------------------------------------------

/-
  The value is the last one that the name was given, and the
  name was not left out since.
-/
def IsLatest
    (history : List TableEvent)
    (name : String)
    (value : Value) : Prop :=
  ∃ before after,
    history = before ++ .put name value :: after ∧
      ∀ event ∈ after, event.name ≠ name

/-
  The event at the position gave the name a value when it had
  none, and the name was not left out since.
-/
def IsEntrance
    (history : List TableEvent)
    (name : String)
    (position : Nat) : Prop :=
  ∃ before value after,
    history = before ++ .put name value :: after ∧
      before.length = position ∧
        (∀ former, ¬ IsLatest before name former) ∧
          .drop name ∉ after

/- The last event decides about its own name only. -/
theorem isLatest_concat
    {history : List TableEvent}
    {event : TableEvent}
    {name : String}
    {value : Value} :
    IsLatest (history ++ [event]) name value ↔
      event = .put name value ∨
        event.name ≠ name ∧ IsLatest history name value := by
  constructor
  · rintro ⟨before, after, hHistory, hAfter⟩
    rcases List.eq_nil_or_concat after with rfl | ⟨after, last, rfl⟩
    · exact Or.inl
        (List.cons.inj (List.append_inj' hHistory rfl).2).1
    · rw [List.concat_eq_append] at hHistory hAfter
      rw [← List.cons_append, ← List.append_assoc] at hHistory
      rcases List.append_inj' hHistory rfl with ⟨hFront, hLast⟩
      cases hLast
      refine Or.inr ⟨hAfter event (by simp), before, after,
        hFront, fun other hOther => hAfter other ?_⟩
      exact List.mem_append_left _ hOther
  · rintro (rfl | ⟨hName, before, after, rfl, hAfter⟩)
    · exact ⟨history, [], rfl, by simp⟩
    · refine ⟨before, after ++ [event], by simp, ?_⟩
      intro other hOther
      rcases List.mem_append.mp hOther with hOther | hOther
      · exact hAfter other hOther
      · rwa [List.mem_singleton.mp hOther]

/- A name stays where it came in until it is left out. -/
theorem IsEntrance.concat
    {history : List TableEvent}
    {event : TableEvent}
    {name : String}
    {position : Nat}
    (h : IsEntrance history name position)
    (hEvent : event ≠ .drop name) :
    IsEntrance (history ++ [event]) name position := by
  rcases h with ⟨before, value, after, rfl, hLength, hNew, hAfter⟩
  refine ⟨before, value, after ++ [event], by simp, hLength, hNew,
    ?_⟩
  simpa [hAfter] using Ne.symm hEvent

/- A name without a value comes in when it is given one. -/
theorem isEntrance_put
    {history : List TableEvent}
    {name : String}
    (hNew : ∀ former, ¬ IsLatest history name former)
    (value : Value) :
    IsEntrance (history ++ [.put name value]) name
      history.length :=
  ⟨history, value, [], rfl, rfl, hNew, by simp⟩

theorem IsEntrance.lt_length
    {history : List TableEvent}
    {name : String}
    {position : Nat}
    (h : IsEntrance history name position) :
    position < history.length := by
  rcases h with ⟨before, value, after, rfl, rfl, _, _⟩
  simp

namespace AttributeTable

variable {t : AttributeTable} {history : List TableEvent}

------------------------------------------------------------
-- Removing
------------------------------------------------------------

/-
  The value of a name, and the table without the entry that
  stands at the first place with that name.
-/
def remove
    (t : AttributeTable)
    (name : String) : Option Value × AttributeTable :=
  match t.entries.findIdx? (fun entry => entry.name = name) with
  | none => (none, t)
  | some i =>
      (t.entries[i]?.map Attribute.value, ⟨t.entries.eraseIdx i⟩)

/- What is removed is what the name stood for. -/
theorem remove_eq
    (t : AttributeTable)
    (name : String) :
    t.remove name = (t.get? name, t.erase name) := by
  rcases t with ⟨entries⟩
  simp only [remove, get?, erase]
  induction entries with
  | nil => rfl
  | cons entry entries ih =>
      by_cases hName : entry.name = name
      · simp [List.findIdx?_cons, eraseEntry, hName]
      · rw [eraseEntry, if_neg hName]
        cases hIndex :
            entries.findIdx? (fun entry => entry.name = name) with
        | none =>
            rw [hIndex] at ih
            simp only [Prod.mk.injEq, mk.injEq] at ih
            simp [List.findIdx?_cons, hName, hIndex, ← ih.1, ← ih.2]
        | some i =>
            rw [hIndex] at ih
            simp only [Prod.mk.injEq, mk.injEq] at ih
            simp [List.findIdx?_cons, hName, hIndex, ih.1, ih.2]

------------------------------------------------------------
-- Tables of a History
------------------------------------------------------------

/-
  The table holds what its history says.  Its names match
  positions of the history in ascending order: those at which
  the names came in.
-/
structure Records
    (t : AttributeTable)
    (history : List TableEvent) : Prop where
  nodup : t.names.Nodup
  get?_eq_some_iff :
    ∀ name value,
      t.get? name = some value ↔ IsLatest history name value
  ordered :
    ∃ positions : List Nat,
      positions.Pairwise (· < ·) ∧
        List.Forall₂ (IsEntrance history) t.names positions

/- A name that is not in the table has no latest value. -/
theorem Records.not_isLatest
    (h : t.Records history)
    {name : String}
    (hNew : name ∉ t.names)
    (value : Value) :
    ¬ IsLatest history name value := by
  rw [← h.get?_eq_some_iff, get?_eq_none_iff.mpr hNew]
  rintro ⟨⟩

theorem records_empty : empty.Records [] where
  nodup := List.nodup_nil
  get?_eq_some_iff := by
    intro name value
    constructor
    · intro hValue
      cases hValue
    · rintro ⟨before, after, hHistory, _⟩
      exact absurd hHistory.symm (by simp)
  ordered := ⟨[], .nil, .nil⟩

/- A new name goes to the end, any other one stays. -/
theorem Records.put
    (h : t.Records history)
    (name : String)
    (value : Value) :
    (t.set name value).Records (history ++ [.put name value]) where
  nodup := ((IsMap.of_nodup h.nodup).set name trivial).nodup
  get?_eq_some_iff := by
    intro other otherValue
    rw [get?_set, isLatest_concat, ← h.get?_eq_some_iff]
    by_cases hOther : name = other <;>
      simp [hOther, TableEvent.name]
  ordered := by
    rcases h.ordered with ⟨positions, hSorted, hAll⟩
    have hStay :
        List.Forall₂ (IsEntrance (history ++ [.put name value]))
          t.names positions :=
      hAll.imp fun _ _ hEntrance =>
        hEntrance.concat TableEvent.noConfusion
    rw [names_set]
    by_cases hMem : name ∈ t.names
    · rw [if_pos hMem]
      exact ⟨positions, hSorted, hStay⟩
    · rw [if_neg hMem]
      have hEntrance := isEntrance_put (h.not_isLatest hMem) value
      refine ⟨positions ++ [history.length], ?_,
        List.rel_append hStay (.cons hEntrance .nil)⟩
      refine List.pairwise_append.mpr
        ⟨hSorted, List.pairwise_singleton _ _, ?_⟩
      intro position hPosition last hLast
      rw [List.mem_singleton.mp hLast]
      rcases List.mem_iff_getElem.mp hPosition with ⟨i, hi, rfl⟩
      have hLength := hAll.length_eq
      exact (List.forall₂_iff_get.mp hAll).2 i (by omega) hi
        |>.lt_length

/- What pairs with the names that are left is part of the whole. -/
private theorem exists_sublist_erase
    {R : String → Nat → Prop}
    {names : List String}
    {positions : List Nat}
    (h : List.Forall₂ R names positions)
    (name : String) :
    ∃ rest,
      rest.Sublist positions ∧
        List.Forall₂ R (names.erase name) rest := by
  induction h with
  | nil => exact ⟨[], .slnil, .nil⟩
  | @cons first position names positions hFirst hRest ih =>
      by_cases hName : first = name
      · subst hName
        rw [List.erase_cons_head]
        exact ⟨positions, List.sublist_cons_self _ _, hRest⟩
      · rw [List.erase_cons_tail (by simpa using hName)]
        rcases ih with ⟨rest, hSublist, hAll⟩
        exact ⟨position :: rest, hSublist.cons_cons position,
          .cons hFirst hAll⟩

/- A name that is left out is forgotten with its place. -/
theorem Records.drop
    (h : t.Records history)
    (name : String) :
    (t.erase name).Records (history ++ [.drop name]) where
  nodup := by
    rw [names_erase]
    exact h.nodup.erase name
  get?_eq_some_iff := by
    intro other otherValue
    rw [get?_erase h.nodup, isLatest_concat, ← h.get?_eq_some_iff]
    by_cases hOther : name = other <;>
      simp [hOther, TableEvent.name]
  ordered := by
    rcases h.ordered with ⟨positions, hSorted, hAll⟩
    rcases exists_sublist_erase hAll name with
      ⟨rest, hSublist, hRest⟩
    have hOthers : ∀ other ∈ t.names.erase name, other ≠ name :=
      fun other hOther => (h.nodup.mem_erase_iff.mp hOther).1
    rw [names_erase]
    refine ⟨rest, hSorted.sublist hSublist, ?_⟩
    refine (List.forall₂_and_left _ _).mpr ⟨hOthers, hRest⟩
      |>.imp fun other position hBoth => ?_
    refine hBoth.2.concat fun hDrop => hBoth.1 ?_
    exact (TableEvent.drop.inj hDrop).symm

theorem Records.run
    (h : t.Records history)
    (event : TableEvent) :
    (event.run t).Records (history ++ [event]) := by
  cases event with
  | put name value => exact h.put name value
  | drop name => exact h.drop name

/- A run of events keeps the record. -/
theorem records_foldl
    (h : t.Records history)
    (events : List TableEvent) :
    (events.foldl TableEvent.run t).Records (history ++ events) := by
  induction events generalizing t history with
  | nil => simpa using h
  | cons event events ih => simpa using ih (h.run event)

------------------------------------------------------------
-- Tables of Writes
------------------------------------------------------------

/- The table that writes make of the empty one. -/
def ofWrites (writes : List TableWrite) : AttributeTable :=
  writes.foldl TableWrite.run empty

/- Setting attributes is a run of events. -/
theorem setAll_eq_foldl
    (t : AttributeTable)
    (attributes : List Attribute) :
    t.setAll attributes =
      (attributes.map TableEvent.ofAttribute).foldl
        TableEvent.run t := by
  rw [List.foldl_map]
  rfl

theorem run_eq_foldl
    (t : AttributeTable)
    (write : TableWrite) :
    write.run t = write.events.foldl TableEvent.run t := by
  cases write with
  | set name value => rfl
  | setText name text => rfl
  | remove name => rfl
  | merge other => exact t.setAll_eq_foldl other.entries
  | setAll attributes => exact t.setAll_eq_foldl attributes

theorem Records.writes
    (h : t.Records history)
    (writes : List TableWrite) :
    (writes.foldl TableWrite.run t).Records
      (history ++ writes.flatMap TableWrite.events) := by
  induction writes generalizing t history with
  | nil => simpa using h
  | cons write writes ih =>
      have hNext := records_foldl h write.events
      rw [← run_eq_foldl] at hNext
      simpa using ih hNext

theorem records_ofWrites
    (writes : List TableWrite) :
    (ofWrites writes).Records
      (writes.flatMap TableWrite.events) :=
  records_empty.writes writes

/-
  After any writes a table is an ordered map in which the last
  write wins, and removing a name gives back its value.  Merging
  such tables is associative, has the empty table as its unit
  and is idempotent; setting a list is merging its table.
-/
theorem isOrderedMap_ofWrites :
    (∀ writes : List TableWrite,
      (ofWrites writes).Records
          (writes.flatMap TableWrite.events) ∧
        ∀ name,
          (ofWrites writes).remove name =
            ((ofWrites writes).get? name,
              (ofWrites writes).erase name)) ∧
      (∀ first second third : List TableWrite,
        ((ofWrites first).merge (ofWrites second)).merge
            (ofWrites third) =
          (ofWrites first).merge
            ((ofWrites second).merge (ofWrites third))) ∧
      ∀ (writes : List TableWrite) (attributes : List Attribute),
        (ofWrites writes).merge empty = ofWrites writes ∧
          (ofWrites writes).merge (ofWrites writes) =
            ofWrites writes ∧
          (ofWrites writes).setAll attributes =
            (ofWrites writes).merge (ofList attributes) := by
  refine ⟨?_, ?_, ?_⟩
  · intro writes
    exact ⟨records_ofWrites writes, remove_eq _⟩
  · intro first second third
    exact merge_merge (records_ofWrites second).nodup _ _
  · intro writes attributes
    exact ⟨merge_empty _, merge_self (records_ofWrites writes).nodup,
      (merge_ofList _ attributes).symm⟩

end AttributeTable

end DotLang
