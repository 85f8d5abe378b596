/-
  This file defines paths of files, and what can go wrong on
  the way along them.

  A path is read from left to right.  It starts at the root of
  the disk or in the working folder, and each name leads one
  step on.  Slashes in a row count as one.

  Key definitions include:
    * `FileError`
    * `Place`
    * `FilePath`
    * `FilePath.ofText`
-/

------------------------------------------------------------
-- Errors
------------------------------------------------------------

namespace DotLang

/- Why a file could not be read or written. -/
inductive FileError where
| notFound
| notFolder
| isFolder
| longName
| nullInName
| notText
| other (message : String)
deriving DecidableEq, Repr, Inhabited

/- The message for an error. -/
def FileError.message : FileError → String
| notFound => "No such file or directory (os error 2)"
| notFolder => "Not a directory (os error 20)"
| isFolder => "Is a directory (os error 21)"
| longName => "File name too long (os error 36)"
| nullInName => "file name contained an unexpected NUL byte"
| notText => "stream did not contain valid UTF-8"
| other message => message

------------------------------------------------------------
-- Places
------------------------------------------------------------

/-
  The folders that every path can reach: the root of the disk,
  and the working folder with those around it.
-/
inductive Place where
| root
| above (levels : Nat)
deriving DecidableEq, Repr, Inhabited

namespace Place

/- The working folder. -/
def working : Place :=
  above 0

/- The folder around a folder; the root is around itself. -/
def up : Place → Place
| root => root
| above levels => above (levels + 1)

end Place

/- The place of a file and its name there. -/
structure Spot where
  place : Place
  name : String
deriving DecidableEq, Repr, Inhabited

------------------------------------------------------------
-- Paths
------------------------------------------------------------

/-
  Where a path starts, the names on the way, and the last name,
  if it has any name.  A path that asks for a folder has slashes
  behind its last name.
-/
structure FilePath where
  start : Place
  way : List String
  last : Option String
  asksForFolder : Bool
deriving DecidableEq, Repr, Inhabited

namespace FilePath

/- The number of bytes of a path that is too long. -/
def limit : Nat :=
  4096

/- The number of bytes of the longest name. -/
def nameLimit : Nat :=
  255

/- The names for a folder itself and for the one around it. -/
def isDots (name : String) : Bool :=
  name = "." || name = ".."

/- A name that no file can have because of its length. -/
def isLong (name : String) : Bool :=
  nameLimit < name.utf8ByteSize

/- The path that a text spells, unless it cannot be one. -/
def ofText (text : String) : Except FileError FilePath :=
  let names := (text.splitOn "/").filter fun name => name ≠ ""
  if text.contains '\x00' then
    .error .nullInName
  else if text.isEmpty then
    .error .notFound
  else if limit ≤ text.utf8ByteSize then
    .error .longName
  else
    .ok
      { start := if text.startsWith "/" then .root else .working
        way := names.dropLast
        last := names.getLast?
        asksForFolder := text.endsWith "/" }

end FilePath

end DotLang
