import DotLang.Diagnostic

/-
  This file defines the entries of the journal, in which the
  program says what it does.

  Key definitions include:
    * `Level`
    * `Origin`
    * `Entry`
    * `Entry.line`
-/

------------------------------------------------------------
-- Levels and Origins
------------------------------------------------------------

namespace DotLang

/- How much an entry matters. -/
inductive Level where
| error
| warning
| info
| debug
deriving DecidableEq, Repr, Inhabited

/- The name of a level. -/
def Level.label : Level → String
| error => "ERROR"
| warning => "WARN"
| info => "INFO"
| debug => "DEBUG"

/- The part of the program that speaks. -/
inductive Origin where
| parser
| registry
| builder
| attributes
| forest
| route
| files
| commandLine
deriving DecidableEq, Repr, Inhabited

/- The name of a part in the lines of the journal. -/
def Origin.label : Origin → String
| parser => "dotgraph::gv::parser::parser"
| registry => "dotgraph::graph::model"
| builder => "dotgraph::gv::builder"
| attributes => "dotgraph::graph::attributes"
| forest => "dotgraph::algo::mst"
| route => "dotgraph::algo::path"
| files => "dotgraph::core::utils"
| commandLine => "dotgraph"

------------------------------------------------------------
-- Entries
------------------------------------------------------------

/- One thing that was said. -/
structure Entry where
  level : Level
  origin : Origin
  message : String
deriving DecidableEq, Repr, Inhabited

namespace Entry

/- The level and the message of an entry. -/
def summary (e : Entry) : String :=
  e.level.label ++ " " ++ e.message

/- A message with the lines after its first one moved in. -/
def indented (message : String) : String :=
  String.ofList (message.toList.flatMap fun c =>
    if c = '\n' then "\n    ".toList else [c])

/-
  An entry as it is printed.  The level takes five columns, and
  further lines of the message are moved in by four.
-/
def line (e : Entry) : String :=
  let level := e.level.label
  let padding := List.replicate (5 - level.length) ' '
  "[" ++ level ++ String.ofList padding ++ " " ++
    e.origin.label ++ "] " ++ indented e.message ++ "\n"

/- Without `debug` only errors are printed. -/
def isPrinted (debug : Bool) (e : Entry) : Bool :=
  debug || e.level = .error

/- The entry for a statement that the parser gave up. -/
def recovered (d : Diagnostic) : Entry :=
  ⟨.warning, .parser, d.text⟩

/- The entry for a warning that joins those of a registry. -/
def warned (d : Diagnostic) : Entry :=
  ⟨.warning, .registry, d.text⟩

end Entry

end DotLang
