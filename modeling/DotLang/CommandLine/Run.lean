import DotLang.CommandLine.Invocation
import DotLang.Registry.Load
import DotLang.Route
import DotLang.SpanningForest
import DotLang.Stmt.Outline
import DotLang.Registry.Csv
import DotLang.Registry.Trace

/-
  This file defines what the program answers on the command
  line: what it prints, what it says on the side, and how it
  ends.

  Key definitions include:
    * `Answer`
    * `Invocation.graphAnswer`
    * `Invocation.routeAnswer`
    * `Invocation.produce`
    * `Invocation.run`
-/

------------------------------------------------------------
-- Answers
------------------------------------------------------------

namespace DotLang

/- What is printed, and what is said on the side. -/
structure Answer where
  output : String
  remarks : String
deriving DecidableEq, Repr, Inhabited

namespace Answer

/- Nothing. -/
def empty : Answer :=
  ⟨"", ""⟩

/- One answer behind another one. -/
def append (a b : Answer) : Answer :=
  ⟨a.output ++ b.output, a.remarks ++ b.remarks⟩

instance : Append Answer :=
  ⟨append⟩

/- Answers one behind the other. -/
def join (answers : List Answer) : Answer :=
  answers.foldl append empty

/- A text that is printed. -/
def printed (text : String) : Answer :=
  ⟨text, ""⟩

/- A text that is said on the side. -/
def remarked (text : String) : Answer :=
  ⟨"", text⟩

end Answer

namespace Invocation

/- The part of the journal that the invocation lets through. -/
def journal (i : Invocation) (entries : List Entry) : Answer :=
  .remarked (String.join
    ((entries.filter (Entry.isPrinted (i.has .debug))).map
      Entry.line))

/- An entry of the command line itself. -/
def say
    (i : Invocation)
    (level : Level)
    (message : String) : Answer :=
  i.journal [⟨level, .commandLine, message⟩]

/- An answer that is given only if a switch is on. -/
def when
    (i : Invocation)
    (s : Switch)
    (answer : Answer) : Answer :=
  if i.has s then answer else .empty

------------------------------------------------------------
-- Graphs
------------------------------------------------------------

/- The lines about a subgraph and its own edges. -/
def subgraphLines
    (r : Registry .plain)
    (g : GraphId) : List String :=
  let graph := r.graph g
  ("Sub Graph " ++ graph.name) ::
    graph.edges.map fun e =>
      let edge := r.edge e
      " " ++ (r.node edge.tail).name ++ " " ++
        edge.arrow.spelling ++ " " ++ (r.node edge.head).name

/- The spanning forest of a graph in the graph language. -/
def forestText (r : Registry .plain) (g : GraphId) : String :=
  let tree := r.minimumSpanningTree g
  match tree.roots with
  | root :: _ => tree.toDot root
  | [] => ""

/- What is asked about a top level graph. -/
def graphAnswer
    (i : Invocation)
    (r : Registry .plain)
    (g : GraphId) : Answer :=
  i.when .debug (.remarked (r.trace g)) ++
    i.when .print (.printed (r.toDot g)) ++
    i.when .csv (.printed (r.toCsv g)) ++
    i.when .forest
      (i.say .info "Minimum spanning tree" ++
        i.journal (r.spanningForestJournal g) ++
        .printed (forestText r g)) ++
    i.when .subgraphs
      (i.say .info "Sub graphs" ++
        .printed
          (unlines ((r.subgraphs g).flatMap (subgraphLines r))))

------------------------------------------------------------
-- Routes
------------------------------------------------------------

/- The first node of a graph and inside it with a name. -/
def findByName?
    {F : Factory}
    (r : Registry F)
    (g : GraphId)
    (name : String) : Option NodeId :=
  (r.allNodes g).find? fun n => (r.node n).name = name

/- The route between two nodes, and its weight. -/
def routeBetween
    (i : Invocation)
    (r : Registry .plain)
    (g : GraphId)
    (source target : NodeId) : Answer :=
  let route :=
    if i.has .weighted then
      r.lightestRoute g source target
    else
      r.shortestRoute g source target
  let searched := i.journal (r.routeJournal g source target)
  if route.isEmpty then
    searched ++
      .printed ("No path from " ++ (r.node source).name ++
        " to " ++ (r.node target).name ++ "\n")
  else
    searched ++ i.journal (r.arcsJournal g) ++
      .printed (joinWith " -> " (r.nodeNames route) ++
        " (weight " ++ (r.routeWeight g route).display ++ ")\n")

/- What is asked about the route between two names. -/
def routeAnswer
    (i : Invocation)
    (r : Registry .plain) : Answer :=
  let unknown := fun name =>
    i.say .error ("Unknown node \"" ++ name ++ "\"")
  match i.route, r.roots with
  | none, _ => .empty
  | some _, [] => i.say .error "The file has no graphs"
  | some (source, target), g :: _ =>
      match findByName? r g source, findByName? r g target with
      | none, _ => unknown source
      | some _, none => unknown target
      | some a, some b => i.routeBetween r g a b

------------------------------------------------------------
-- Texts
------------------------------------------------------------

/-
  What is answered about a text: what is printed at once, and
  the content for the output, if the text could be read.
-/
structure Production where
  answer : Answer
  content : Option String
deriving DecidableEq, Repr, Inhabited

/- What is said about a registry when it is complete. -/
def sizeAnswer
    (i : Invocation)
    (recovered : Nat)
    (r : Registry .plain) : Answer :=
  let problems := recovered + r.diagnostics.length
  let warning :=
    if problems = 0 then
      .empty
    else
      i.say .warning
        ("Parsed with " ++ toString problems ++
          " errors and warnings")
  warning ++
    i.say .info
      ("Parsed " ++ toString r.graphs.size ++ " graphs, " ++
        toString r.nodes.size ++ " nodes, " ++
        toString r.edges.size ++ " edges")

/- What is answered about a text. -/
def produce (i : Invocation) (text : String) : Production :=
  let chars := text.toList
  match Parser.file (.ofText chars i.options) with
  | .error d p =>
      { answer :=
          i.journal (p.diagnostics.map .recovered) ++
            .remarked (excerpt chars d.location.offset ++ "\n") ++
            i.say .error ("Error: " ++ d.text)
        content := none }
  | .ok decls p =>
      let build := runGraphs (.plain i.options) decls
      let r := build.registry
      let outline := String.join (decls.map GraphDecl.outline)
      let asked :=
        Answer.join (r.roots.map (i.graphAnswer r)) ++
          i.routeAnswer r
      { answer :=
          i.journal (p.diagnostics.map .recovered) ++
            i.when .ast (.printed outline) ++
            i.journal (journalOf i.options.debug build.events) ++
            i.sizeAnswer p.diagnostics.length r ++
            .remarked asked.remarks
        content := some asked.output }

------------------------------------------------------------
-- Runs
------------------------------------------------------------

/- How a run ends: its answer, and the code it exits with. -/
structure Ending where
  answer : Answer
  code : Nat
deriving DecidableEq, Repr, Inhabited

/- The answer if the input could not be read. -/
def unreadInput (i : Invocation) (e : FileError) : Answer :=
  i.say .error
    ("Can't open the file " ++ i.input ++ ": " ++ e.message)

/- The answer if the output could not be written. -/
def unwrittenOutput
    (i : Invocation)
    (path : String)
    (e : FileError) : Answer :=
  i.say .error ("Could not write the file " ++ path) ++
    i.say .error ("Error " ++ e.message)

/- Read the input, answer, and write the output. -/
def run
    {m : Type → Type}
    [Monad m]
    (access : FileAccess m)
    (i : Invocation) : m Ending := do
  match ← access.read i.input with
  | .error e => return ⟨i.unreadInput e, 1⟩
  | .ok text =>
      let production := i.produce text
      match production.content, i.output with
      | none, _ => return ⟨production.answer, 1⟩
      | some content, none =>
          return ⟨production.answer ++ .printed content, 0⟩
      | some content, some path =>
          match ← access.write path content with
          | .ok _ =>
              return ⟨production.answer ++
                i.journal [.fileWritten path], 0⟩
          | .error e =>
              return ⟨production.answer ++
                i.unwrittenOutput path e, 1⟩

end Invocation

end DotLang
