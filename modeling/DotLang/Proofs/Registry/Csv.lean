import DotLang.Registry.Csv
import DotLang.Proofs.Dot.Layout
import DotLang.Proofs.FirstSeen

/-
  This file defines how a table with commas between its fields
  is read, and proves that reading the table of the edges of a
  graph gives back its records.

  A field stands bare or in quotes.  A bare field holds no comma,
  no quote and no line end; in quotes a quote is written twice.
  A line feed ends a record, but the last one may do without.

  Key definitions include:
    * `CsvPlace`
    * `CsvPlace.step`
    * `CsvPlace.read`
    * `readCsv`
    * `Registry.IsEdgeTable`

  Key theorems include:
    * `CsvPlace.read_csvField`
    * `CsvPlace.read_csvRecord`
    * `readCsv_unlines`
    * `Registry.readCsv_toCsv`
-/

------------------------------------------------------------
-- Reading Tables
------------------------------------------------------------

namespace DotLang

/-
  Where a reader is: in front of a record, in front of a field,
  inside a bare one or one in quotes, or behind a quote in it.
  It keeps the fields of the record and the text of the field
  that it has read so far.
-/
inductive CsvPlace where
| record
| field (fields : List String)
| bare (fields : List String) (text : List Char)
| quoted (fields : List String) (text : List Char)
| unquoted (fields : List String) (text : List Char)
deriving DecidableEq, Repr, Inhabited

/- A character leads to another place or ends a record. -/
inductive CsvStep where
| goOn (place : CsvPlace)
| ended (record : List String)
deriving DecidableEq, Repr, Inhabited

namespace CsvPlace

/- What the end of a field does. -/
def stepDelimiter?
    (fields : List String)
    (text : List Char) : Char → Option CsvStep
| ',' => some (.goOn (.field (fields ++ [String.ofList text])))
| '\n' => some (.ended (fields ++ [String.ofList text]))
| _ => none

/- A bare field goes on up to its end, without any quote. -/
def stepBare
    (fields : List String)
    (text : List Char)
    (c : Char) : Option CsvStep :=
  if c = '"' ∨ c = '\r' then
    none
  else
    (stepDelimiter? fields text c).getD
      (.goOn (.bare fields (text ++ [c])))

/- A quote in front of a field opens it. -/
def stepField
    (fields : List String)
    (c : Char) : Option CsvStep :=
  if c = '"' then
    some (.goOn (.quoted fields []))
  else
    stepBare fields [] c

/- What a character does, unless it has no place there. -/
def step : CsvPlace → Char → Option CsvStep
| record, c => stepField [] c
| field fields, c => stepField fields c
| bare fields text, c => stepBare fields text c
| quoted fields text, c =>
    if c = '"' then
      some (.goOn (.unquoted fields text))
    else
      some (.goOn (.quoted fields (text ++ [c])))
| unquoted fields text, c =>
    if c = '"' then
      some (.goOn (.quoted fields (text ++ [c])))
    else
      stepDelimiter? fields text c

/- The records that the end of the text ends. -/
def finish : CsvPlace → Option (List (List String))
| record => some []
| field fields => some [fields ++ [""]]
| bare fields text => some [fields ++ [String.ofList text]]
| quoted _ _ => none
| unquoted fields text => some [fields ++ [String.ofList text]]

/- The records that end from a place on. -/
def read : CsvPlace → List Char → Option (List (List String))
| place, [] => place.finish
| place, c :: rest =>
    match place.step c with
    | none => none
    | some (.goOn next) => read next rest
    | some (.ended fields) =>
        (read .record rest).map (fields :: ·)

end CsvPlace

/- The records of a table, if the text is one. -/
def readCsv (text : String) : Option (List (List String)) :=
  CsvPlace.read .record text.toList

------------------------------------------------------------
-- Fields
------------------------------------------------------------

namespace CsvPlace

variable {fields : List String}

theorem stepBare_plain
    {c : Char}
    (hPlain : isCsvSpecial c = false)
    (text : List Char) :
    stepBare fields text c =
      some (.goOn (.bare fields (text ++ [c]))) := by
  simp only [isCsvSpecial, Bool.or_eq_false_iff,
    decide_eq_false_iff_not] at hPlain
  rcases hPlain with ⟨⟨⟨hComma, hQuote⟩, hFeed⟩, hReturn⟩
  have hNone : stepDelimiter? fields text c = none := by
    unfold stepDelimiter?
    split <;> trivial
  rw [stepBare, if_neg (by simp [hQuote, hReturn]), hNone]
  rfl

/- Plain characters are the text of a bare field. -/
theorem read_bare
    {text : List Char}
    (hPlain : ∀ c ∈ text, isCsvSpecial c = false)
    (before rest : List Char) :
    read (.bare fields before) (text ++ rest) =
      read (.bare fields (before ++ text)) rest := by
  induction text generalizing before with
  | nil => simp
  | cons c text ih =>
      rw [List.forall_mem_cons] at hPlain
      rw [List.cons_append, read, step,
        stepBare_plain hPlain.1]
      simp only
      rw [ih hPlain.2, List.append_assoc, List.singleton_append]

/- Inside quotes a quote that is written twice is one. -/
theorem read_doubleQuotes
    (text before rest : List Char) :
    read (.quoted fields before) (doubleQuotes text ++ rest) =
      read (.quoted fields (before ++ text)) rest := by
  induction text generalizing before with
  | nil => simp [doubleQuotes]
  | cons c text ih =>
      have hNext := ih (before ++ [c])
      rw [List.append_assoc, List.singleton_append] at hNext
      rw [← hNext]
      unfold doubleQuotes
      rw [List.flatMap_cons]
      by_cases hQuote : c = '"'
      · subst hQuote
        simp [read, step]
      · simp [read, step, hQuote]

/- Only a quote tells the front of a field from a bare one. -/
theorem read_field_of_ne
    {c : Char}
    (hQuote : c ≠ '"')
    (rest : List Char) :
    read (.field fields) (c :: rest) =
      read (.bare fields []) (c :: rest) := by
  rw [read, read, step, step, stepField, if_neg hQuote]

section

variable {delimiter : Char}

/- Behind a closing quote a field ends as a bare one does. -/
theorem read_closingQuote
    (hDelimiter : delimiter = ',' ∨ delimiter = '\n')
    (text rest : List Char) :
    read (.quoted fields text) ('"' :: delimiter :: rest) =
      read (.bare fields text) (delimiter :: rest) := by
  rcases hDelimiter with rfl | rfl <;> rfl

theorem read_quotes
    (hDelimiter : delimiter = ',' ∨ delimiter = '\n')
    (text rest : List Char) :
    read (.field fields)
        ('"' :: (doubleQuotes text ++ '"' :: delimiter :: rest)) =
      read (.bare fields text) (delimiter :: rest) :=
  calc read (.field fields)
        ('"' :: (doubleQuotes text ++ '"' :: delimiter :: rest))
    _ = read (.quoted fields [])
          (doubleQuotes text ++ '"' :: delimiter :: rest) := rfl
    _ = read (.quoted fields text) ('"' :: delimiter :: rest) := by
        rw [read_doubleQuotes, List.nil_append]
    _ = read (.bare fields text) (delimiter :: rest) :=
        read_closingQuote hDelimiter text rest

theorem read_plain
    (hDelimiter : delimiter = ',' ∨ delimiter = '\n')
    {text : List Char}
    (hPlain : ∀ c ∈ text, isCsvSpecial c = false)
    (rest : List Char) :
    read (.field fields) (text ++ delimiter :: rest) =
      read (.bare fields text) (delimiter :: rest) := by
  -- Neither a plain character nor a delimiter is a quote.
  have hBegin :
      read (.field fields) (text ++ delimiter :: rest) =
        read (.bare fields []) (text ++ delimiter :: rest) := by
    cases text with
    | nil =>
        refine read_field_of_ne ?_ rest
        rcases hDelimiter with rfl | rfl <;> decide
    | cons c more =>
        refine read_field_of_ne ?_ _
        rintro rfl
        have hQuote := hPlain '"' List.mem_cons_self
        revert hQuote
        decide
  rw [hBegin, read_bare hPlain, List.nil_append]

/- A field in front of its end is read, bare or in quotes. -/
theorem read_csvField
    (hDelimiter : delimiter = ',' ∨ delimiter = '\n')
    (text : String)
    (rest : List Char) :
    read (.field fields)
        ((csvField text).toList ++ delimiter :: rest) =
      read (.bare fields text.toList) (delimiter :: rest) := by
  by_cases hQuotes : needsCsvQuotes text.toList = true
  · have hText :
        (csvField text).toList ++ delimiter :: rest =
          '"' :: (doubleQuotes text.toList ++
            '"' :: delimiter :: rest) := by
      simp [csvField, hQuotes]
    rw [hText, read_quotes hDelimiter]
  · have hPlain : ∀ c ∈ text.toList, isCsvSpecial c = false := by
      simp only [needsCsvQuotes, Bool.or_eq_true, not_or] at hQuotes
      simpa using hQuotes.1.1
    have hText : csvField text = text := by
      rw [csvField, if_neg hQuotes]
    rw [hText, read_plain hDelimiter hPlain]

end

------------------------------------------------------------
-- Records
------------------------------------------------------------

/- A record is read up to the line feed behind it. -/
theorem read_csvRecord
    {record : List String}
    (hRecord : record ≠ [])
    (fields : List String)
    (rest : List Char) :
    read (.field fields) ((csvRecord record).toList ++ '\n' :: rest) =
      (read .record rest).map ((fields ++ record) :: ·) := by
  unfold csvRecord
  induction record generalizing fields with
  | nil => exact absurd rfl hRecord
  | cons text others ih =>
      cases others with
      | nil =>
          rw [List.map_cons, List.map_nil, joinWith,
            read_csvField (Or.inr rfl)]
          simp [read, step, stepBare, stepDelimiter?]
      | cons other others =>
          have hNext := ih (List.cons_ne_nil _ _) (fields ++ [text])
          have hText :
              (joinWith ","
                  ((text :: other :: others).map csvField)).toList ++
                    '\n' :: rest =
                (csvField text).toList ++
                  ',' :: ((joinWith ","
                    ((other :: others).map csvField)).toList ++
                      '\n' :: rest) := by
            simp [joinWith]
          rw [hText, read_csvField (Or.inl rfl)]
          simpa [read, step, stepBare, stepDelimiter?] using hNext

end CsvPlace

/- Records that are written one a line are read again. -/
theorem readCsv_unlines
    (records : List (List String))
    (hRecords : ∀ record ∈ records, record ≠ []) :
    readCsv (unlines (records.map csvRecord)) = some records := by
  unfold readCsv
  rw [toList_unlines]
  induction records with
  | nil => rfl
  | cons record records ih =>
      rw [List.forall_mem_cons] at hRecords
      have hLines :
          lineChars ((record :: records).map csvRecord) =
            (csvRecord record).toList ++
              '\n' :: lineChars (records.map csvRecord) := by
        simp [lineChars]
      -- Any character does the same in front of a first field.
      have hFirst :
          ∀ (text rest : List Char),
            CsvPlace.read .record (text ++ '\n' :: rest) =
              CsvPlace.read (.field []) (text ++ '\n' :: rest) := by
        intro text rest
        cases text <;> rfl
      rw [hLines, hFirst, CsvPlace.read_csvRecord hRecords.1,
        ih hRecords.2]
      rfl

example :
    readCsv "a,\"b,\"\"c\"\n" = some [["a", "b,\"c"]] := by
  decide

------------------------------------------------------------
-- Tables of Edges
------------------------------------------------------------

namespace Registry

variable {F : Factory}

/- The text of a value, which is empty where there is none. -/
def cellText : Option Value → String
| some value => value.text
| none => ""

/-
  The records of a table of edges: below the header one record
  for each edge, with its ends and its text for each column.
-/
structure IsEdgeTable
    (r : Registry F)
    (edges : List EdgeId)
    (columns : List String)
    (records : List (List String)) : Prop where
  isFirstSeen :
    IsFirstSeen columns
      (edges.flatMap fun e => (r.edge e).attributes.names)
  records_eq :
    records =
      ("from" :: "to" :: columns) ::
        edges.map fun e =>
          (r.node (r.edge e).tail).name ::
            (r.node (r.edge e).head).name ::
              columns.map fun name =>
                cellText ((r.edge e).attributes.get? name)
  aligned :
    ∀ record ∈ records, record.length = columns.length + 2

theorem edgeFields_eq
    (r : Registry F)
    (columns : List String)
    (e : EdgeId) :
    r.edgeFields columns e =
      (r.node (r.edge e).tail).name ::
        (r.node (r.edge e).head).name ::
          columns.map fun name =>
            cellText ((r.edge e).attributes.get? name) := by
  have hText :
      ∀ name,
        ((r.edge e).attributes.text? name).getD "" =
          cellText ((r.edge e).attributes.get? name) := by
    intro name
    rw [AttributeTable.text?]
    cases (r.edge e).attributes.get? name <;> rfl
  simp only [edgeFields, hText]

theorem isEdgeTable_csvRecords
    (r : Registry F)
    (g : GraphId) :
    r.IsEdgeTable (r.allEdges g)
      (r.attributeColumns (r.allEdges g)) (r.csvRecords g) where
  isFirstSeen := isFirstSeen_eraseDups _
  records_eq := by
    simp only [csvRecords, ← edgeFields_eq]
  aligned := by
    intro record hRecord
    rcases List.mem_cons.mp hRecord with rfl | hEdge
    · rfl
    · rcases List.mem_map.mp hEdge with ⟨e, _, rfl⟩
      simp [edgeFields]

/-
  The table of the edges of a graph is read as records that are
  aligned: a header of the columns, and one record for each edge.
-/
theorem readCsv_toCsv
    (r : Registry F)
    (g : GraphId) :
    ∃ columns records,
      readCsv (r.toCsv g) = some records ∧
        r.IsEdgeTable (r.allEdges g) columns records := by
  have hTable := r.isEdgeTable_csvRecords g
  refine ⟨_, r.csvRecords g, ?_, hTable⟩
  apply readCsv_unlines
  rintro record hRecord rfl
  exact absurd (hTable.aligned [] hRecord) (by simp)

end Registry

end DotLang
