import DotLang.CommandLine.Run

/-
  This file defines the program: it reads files in the graph
  language and prints graphs, spanning forests and routes.

  Key definitions include:
    * `diskAccess`
    * `main`
-/

------------------------------------------------------------
-- Files on Disk
------------------------------------------------------------

namespace DotLang

/- The error that a failure of the disk stands for. -/
def fileErrorOf : IO.Error → FileError
| .noFileOrDirectory _ _ _ => .notFound
| .inappropriateType _ code message =>
    if code = 20 then
      .notFolder
    else if code = 21 then
      .isFolder
    else
      .other message
| .invalidArgument _ code message =>
    if code = 36 then .longName else .other message
| e => .other (toString e)

/- Access to the files on disk. -/
def diskAccess : FileAccess IO where
  read path := do
    match ← (IO.FS.readBinFile path).toBaseIO with
    | .error e => return .error (fileErrorOf e)
    | .ok bytes =>
        match String.fromUTF8? bytes with
        | some text => return .ok text
        | none => return .error .notText
  write path text := do
    match ← (IO.FS.writeFile path text).toBaseIO with
    | .error e => return .error (fileErrorOf e)
    | .ok _ => return .ok ()

/- How the program is called. -/
def usage : String :=
  "usage: dotlang [-d|--debug] [-a|--ast] [-p|--print] [--csv] " ++
    "[--mst] [--sub-graphs] [--path FROM TO] [--weighted] " ++
    "[--max-errors N] [-o|--output FILE] INPUT"

end DotLang

------------------------------------------------------------
-- Program
------------------------------------------------------------

/- Run the program on the words of the command line. -/
def main (words : List String) : IO UInt32 := do
  match DotLang.Invocation.ofWords? words with
  | none =>
      IO.eprintln DotLang.usage
      return 2
  | some invocation =>
      let ending ← invocation.run DotLang.diskAccess
      IO.eprint ending.answer.remarks
      IO.print ending.answer.output
      return UInt32.ofNat ending.code
