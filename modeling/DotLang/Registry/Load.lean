import DotLang.Folder
import DotLang.Parser.Grammar
import DotLang.Registry.Build

/-
  This file defines how texts and files become graphs of a
  registry.

  A text with a fatal problem adds no graph; the problems of
  the statements given up before it are kept all the same.

  Key definitions include:
    * `Loading`
    * `Registry.load`
    * `Registry.loadFile`
-/

------------------------------------------------------------
-- Loading Texts
------------------------------------------------------------

namespace DotLang

/- A registry after loading, how it went, and what was said. -/
structure Loading (F : Factory) where
  registry : Registry F
  outcome : Except Diagnostic Unit
  journal : List Entry

namespace Registry

variable {F : Factory}

/- The journal entry about a fatal problem in a text. -/
def fatalEntry (text : List Char) (d : Diagnostic) : Entry :=
  { level := .error
    origin := .registry
    message := d.text ++ "\n" ++ excerpt text d.location.offset }

/- Add the graphs of a text. -/
def load (r : Registry F) (text : String) : Loading F :=
  let chars := text.toList
  match Parser.file (.ofText chars r.options) with
  | .ok decls p =>
      let r :=
        { r with diagnostics := r.diagnostics ++ p.diagnostics }
      let build := runGraphs r decls
      { registry := build.registry
        outcome := .ok ()
        journal :=
          p.diagnostics.map .recovered ++
            journalOf r.options.debug build.events }
  | .error d p =>
      { registry :=
          { r with diagnostics := r.diagnostics ++ p.diagnostics }
        outcome := .error d
        journal :=
          p.diagnostics.map .recovered ++ [fatalEntry chars d] }

/- The problem of a file that could not be read. -/
def unreadableFile (path : String) (e : FileError) : Diagnostic :=
  .unreadable (path ++ ": " ++ e.message)

/- Add the graphs of a file, given what reading it gave. -/
def loadFile
    (r : Registry F)
    (path : String)
    (content : Except FileError String) : Loading F :=
  match content with
  | .error e =>
      let d := unreadableFile path e
      { registry := r
        outcome := .error d
        journal := [⟨.error, .registry, d.text⟩] }
  | .ok text =>
      let loading := r.load text
      { loading with
        journal := .fileRead path text :: loading.journal }

end Registry

end DotLang
