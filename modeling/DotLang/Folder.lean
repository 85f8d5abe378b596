import DotLang.FilePath
import DotLang.Journal

/-
  This file defines folders of files, with reading and writing
  along paths.

  The names of a path are looked up one after the other, so the
  first one that leads nowhere decides what goes wrong.

  Key definitions include:
    * `Folder`
    * `Folder.enter`
    * `Folder.walk`
    * `Folder.read`
    * `Folder.write`
    * `FileAccess`
-/

------------------------------------------------------------
-- Folders
------------------------------------------------------------

namespace DotLang

/-
  The files that can be reached from a working folder.  Besides
  that folder and those around it there are no others.
-/
structure Folder where
  files : List (Spot × ByteArray)
deriving Inhabited

/- What a name leads to. -/
inductive Entrance where
| folder (place : Place)
| file (bytes : ByteArray)
deriving Inhabited

namespace Folder

/- A working folder with files by name. -/
def ofFiles (files : List (String × ByteArray)) : Folder where
  files := files.map fun file => (⟨.working, file.1⟩, file.2)

------------------------------------------------------------
-- Walking
------------------------------------------------------------

/- Go from a folder to what a name leads to. -/
def enter
    (f : Folder)
    (place : Place)
    (name : String) : Except FileError Entrance :=
  if name = "." then
    .ok (.folder place)
  else if name = ".." then
    .ok (.folder place.up)
  else if FilePath.isLong name then
    .error .longName
  else
    match f.files.lookup ⟨place, name⟩ with
    | some bytes => .ok (.file bytes)
    | none => .error .notFound

/- Go along names, each of which has to lead to a folder. -/
def walk
    (f : Folder)
    (place : Place) : List String → Except FileError Place
| [] => .ok place
| name :: rest => do
    match ← f.enter place name with
    | .folder next => f.walk next rest
    | .file _ => .error .notFolder

------------------------------------------------------------
-- Reading and Writing
------------------------------------------------------------

/- The text of a file. -/
def read
    (f : Folder)
    (text : String) : Except FileError String := do
  let path ← FilePath.ofText text
  let place ← f.walk path.start path.way
  match path.last with
  | none => .error .isFolder
  | some name =>
      match ← f.enter place name with
      | .folder _ => .error .isFolder
      | .file bytes =>
          if path.asksForFolder then
            .error .notFolder
          else
            match String.fromUTF8? bytes with
            | some content => .ok content
            | none => .error .notText

/- Put a text into a file, in place of what is there. -/
def write
    (f : Folder)
    (text content : String) : Except FileError Folder := do
  let path ← FilePath.ofText text
  let place ← f.walk path.start path.way
  match path.last with
  | none => .error .isFolder
  | some name =>
      if FilePath.isDots name || path.asksForFolder then
        .error .isFolder
      else if FilePath.isLong name then
        .error .longName
      else
        let spot : Spot := ⟨place, name⟩
        .ok
          { files :=
              (spot, content.toUTF8) ::
                f.files.filter fun file => file.1 ≠ spot }

end Folder

------------------------------------------------------------
-- Access
------------------------------------------------------------

/- How a program reads and writes files, whatever holds them. -/
structure FileAccess (m : Type → Type) where
  read : String → m (Except FileError String)
  write : String → String → m (Except FileError Unit)

/- Access to a folder that is passed along. -/
def Folder.access : FileAccess (StateM Folder) where
  read path := do
    return (← get).read path
  write path text := do
    match (← get).write path text with
    | .ok f =>
        set f
        return .ok ()
    | .error e => return .error e

/- The journal entry about a file that was read. -/
def Entry.fileRead (path text : String) : Entry :=
  { level := .info
    origin := .files
    message :=
      "Read " ++ path ++ " (" ++ toString text.utf8ByteSize ++
        " bytes)" }

/- The journal entry about a file that was written. -/
def Entry.fileWritten (path : String) : Entry :=
  ⟨.info, .files, "Wrote " ++ path⟩

end DotLang
