import DotLang.Attribute

/-
  This file defines attribute tables: maps from names to values
  that keep the order in which names came in.

  Key definitions include:
    * `AttributeTable`
    * `AttributeTable.set`
    * `AttributeTable.setAll`
    * `AttributeTable.merge`
    * `AttributeTable.erase`
    * `AttributeTable.get?`
-/

------------------------------------------------------------
-- Entries
------------------------------------------------------------

namespace DotLang

/-
  Give a name a value.  A name that is there keeps its place;
  any other goes to the end.
-/
def setEntry
    (name : String)
    (value : Value) : List Attribute → List Attribute
| [] => [⟨name, value⟩]
| entry :: rest =>
    if entry.name = name then
      ⟨name, value⟩ :: rest
    else
      entry :: setEntry name value rest

/- Leave out the first entry with a name. -/
def eraseEntry
    (name : String) : List Attribute → List Attribute
| [] => []
| entry :: rest =>
    if entry.name = name then
      rest
    else
      entry :: eraseEntry name rest

------------------------------------------------------------
-- Attribute Tables
------------------------------------------------------------

/- The entries of a table in their order. -/
structure AttributeTable where
  entries : List Attribute
deriving DecidableEq, Repr, Inhabited

namespace AttributeTable

/- The table without entries. -/
def empty : AttributeTable :=
  ⟨[]⟩

/- The number of entries. -/
def size (t : AttributeTable) : Nat :=
  t.entries.length

/- There are no entries. -/
def isEmpty (t : AttributeTable) : Bool :=
  t.entries.isEmpty

/- Give a name a value. -/
def set
    (t : AttributeTable)
    (name : String)
    (value : Value) : AttributeTable :=
  ⟨setEntry name value t.entries⟩

/- Give names their values, one after the other. -/
def setAll
    (t : AttributeTable)
    (attributes : List Attribute) : AttributeTable :=
  attributes.foldl (fun t a => t.set a.name a.value) t

/- Add the entries of another table, whose values win. -/
def merge (t other : AttributeTable) : AttributeTable :=
  t.setAll other.entries

/- The table that a list of attributes makes. -/
def ofList (attributes : List Attribute) : AttributeTable :=
  empty.setAll attributes

/- Leave out a name. -/
def erase
    (t : AttributeTable)
    (name : String) : AttributeTable :=
  ⟨eraseEntry name t.entries⟩

/- The value of a name, if it has one. -/
def get?
    (t : AttributeTable)
    (name : String) : Option Value :=
  (t.entries.find? fun entry => entry.name = name).map (·.value)

/- The name has a value. -/
def has
    (t : AttributeTable)
    (name : String) : Bool :=
  (t.get? name).isSome

/- The text of the value of a name, without any brackets. -/
def text?
    (t : AttributeTable)
    (name : String) : Option String :=
  (t.get? name).map Value.text

/- The names in their order. -/
def names (t : AttributeTable) : List String :=
  t.entries.map (·.name)

end AttributeTable

end DotLang
