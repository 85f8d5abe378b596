import DotLang.Registry.Query
import DotLang.Text.Layout

/-
  This file defines the table of the edges of a graph, with
  commas between fields.

  A field with a comma, a quote or a line end in it, or with a
  space at one of its ends, stands in quotes; quotes inside are
  doubled.

  Key definitions include:
    * `csvField`
    * `csvRecord`
    * `Registry.toCsv`
-/

------------------------------------------------------------
-- Fields and Records
------------------------------------------------------------

namespace DotLang

/- A character that a bare field must not hold. -/
def isCsvSpecial (c : Char) : Bool :=
  c = ',' || c = '"' || c = '\n' || c = '\r'

/- A field that has to stand in quotes. -/
def needsCsvQuotes (field : List Char) : Bool :=
  field.any isCsvSpecial ||
    field.head? = some ' ' || field.getLast? = some ' '

/- Write each quote twice. -/
def doubleQuotes (field : List Char) : List Char :=
  field.flatMap fun c => if c = '"' then ['"', '"'] else [c]

/- A field as it is written. -/
def csvField (field : String) : String :=
  if needsCsvQuotes field.toList then
    String.ofList ('"' :: doubleQuotes field.toList ++ ['"'])
  else
    field

/- A record as it is written, without its line end. -/
def csvRecord (fields : List String) : String :=
  joinWith "," (fields.map csvField)

------------------------------------------------------------
-- Tables of Edges
------------------------------------------------------------

namespace Registry

variable {F : Factory}

/- The names of the attributes of edges, each once. -/
def attributeColumns
    (r : Registry F)
    (edges : List EdgeId) : List String :=
  (edges.flatMap fun e => (r.edge e).attributes.names).eraseDups

/- The fields of an edge: its ends, then a text a column. -/
def edgeFields
    (r : Registry F)
    (columns : List String)
    (e : EdgeId) : List String :=
  let edge := r.edge e
  (r.node edge.tail).name :: (r.node edge.head).name ::
    columns.map fun name => (edge.attributes.text? name).getD ""

/- The records of the edges of a graph, below a header. -/
def csvRecords
    (r : Registry F)
    (g : GraphId) : List (List String) :=
  let edges := r.allEdges g
  let columns := r.attributeColumns edges
  ("from" :: "to" :: columns) :: edges.map (r.edgeFields columns)

/- The table of the edges of a graph. -/
def toCsv (r : Registry F) (g : GraphId) : String :=
  unlines ((r.csvRecords g).map csvRecord)

end Registry

end DotLang
