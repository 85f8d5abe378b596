import DotLang.Options
import DotLang.Text.Numeral

/-
  This file defines the arguments of the command line.

  A switch stands alone; a setting takes one or two values,
  which are the words behind it.  Short switches can be joined
  in one word.  Nothing may be given twice, and there is one
  input.

  Key definitions include:
    * `Switch`
    * `Setting`
    * `Argument`
    * `readArguments?`
    * `Invocation`
    * `Invocation.ofWords?`
-/

------------------------------------------------------------
-- Switches and Settings
------------------------------------------------------------

namespace DotLang

/- What can be switched on. -/
inductive Switch where
| debug
| ast
| print
| csv
| forest
| subgraphs
| weighted
deriving DecidableEq, Repr, Inhabited

namespace Switch

/- The switch with a long name. -/
def ofName? : String → Option Switch
| "debug" => some debug
| "ast" => some ast
| "print" => some print
| "csv" => some csv
| "mst" => some forest
| "sub-graphs" => some subgraphs
| "weighted" => some weighted
| _ => none

/- The switch with a short name. -/
def ofChar? : Char → Option Switch
| 'd' => some debug
| 'a' => some ast
| 'p' => some print
| _ => none

end Switch

/- What can be set to values. -/
inductive Setting where
| route
| maxErrors
| output
deriving DecidableEq, Repr, Inhabited

namespace Setting

/- The setting with a long name. -/
def ofName? : String → Option Setting
| "path" => some route
| "max-errors" => some maxErrors
| "output" => some output
| _ => none

/- The setting with a short name. -/
def ofChar? : Char → Option Setting
| 'o' => some output
| _ => none

/- The number of values of a setting. -/
def arity : Setting → Nat
| route => 2
| maxErrors => 1
| output => 1

end Setting

------------------------------------------------------------
-- Arguments
------------------------------------------------------------

/- One argument. -/
inductive Argument where
| switch (s : Switch)
| setting (s : Setting) (values : List String)
| input (path : String)
deriving DecidableEq, Repr, Inhabited

/- A setting that waits for values, and those it has. -/
structure Pending where
  setting : Setting
  values : List String
deriving DecidableEq, Repr, Inhabited

/-
  The arguments of one word, and the setting that waits for the
  words behind it.
-/
abbrev Word :=
  List Argument × Option Pending

/- A setting with a value in the same word. -/
def attach? (s : Setting) (value : String) : Option Word :=
  if s.arity = 1 then
    some ([.setting s [value]], none)
  else
    none

/- A word of short names behind its dash. -/
def readShort? : List Char → Option Word
| [] => some ([], none)
| c :: rest =>
    match Switch.ofChar? c with
    | some s =>
        (readShort? rest).map fun word =>
          (.switch s :: word.1, word.2)
    | none =>
        match Setting.ofChar? c, rest with
        | none, _ => none
        | some s, [] => some ([], some ⟨s, []⟩)
        | some s, '=' :: value => attach? s (String.ofList value)
        | some s, value => attach? s (String.ofList value)

/-
  A long name behind its dashes, with a value behind an equals
  sign if there is one.
-/
def readLong? (text : List Char) : Option Word :=
  let name := String.ofList (text.takeWhile (· ≠ '='))
  match text.dropWhile (· ≠ '=') with
  | [] =>
      match Switch.ofName? name with
      | some s => some ([.switch s], none)
      | none =>
          (Setting.ofName? name).map fun s => ([], some ⟨s, []⟩)
  | _ :: value =>
      (Setting.ofName? name).bind fun s =>
        attach? s (String.ofList value)

/- A word that starts with a dash is no value, except the dash. -/
def isValue (word : String) : Bool :=
  match word.toList with
  | '-' :: _ :: _ => false
  | _ => true

/-
  The arguments that words make while a setting may wait for
  values.  Behind two dashes every word is an input.
-/
def readWords? :
    Option Pending → List String → Option (List Argument)
| none, [] => some []
| some _, [] => none
| some p, word :: rest =>
    if isValue word then
      let values := p.values ++ [word]
      if values.length = p.setting.arity then
        (readWords? none rest).map (.setting p.setting values :: ·)
      else
        readWords? (some { p with values := values }) rest
    else
      none
| none, word :: rest =>
    if isValue word then
      (readWords? none rest).map (.input word :: ·)
    else
      match word.toList with
      | ['-', '-'] => some (rest.map .input)
      | '-' :: '-' :: text =>
          (readLong? text).bind fun read =>
            (readWords? read.2 rest).map (read.1 ++ ·)
      | _ :: text =>
          (readShort? text).bind fun read =>
            (readWords? read.2 rest).map (read.1 ++ ·)
      | [] => none

/- The arguments that words make. -/
def readArguments? (words : List String) : Option (List Argument) :=
  readWords? none words

------------------------------------------------------------
-- Invocations
------------------------------------------------------------

/- What the program is asked to do. -/
structure Invocation where
  switches : List Switch
  route : Option (String × String)
  maxErrors : Nat
  output : Option String
  input : String
deriving DecidableEq, Repr, Inhabited

namespace Invocation

/- A switch is on. -/
def has (i : Invocation) (s : Switch) : Bool :=
  i.switches.contains s

/- The options of reading the input. -/
def options (i : Invocation) : Options where
  debug := i.has .debug
  maxErrors := i.maxErrors

/- The switches among arguments. -/
def switchesOf (arguments : List Argument) : List Switch :=
  arguments.filterMap fun
    | .switch s => some s
    | _ => none

/- The inputs among arguments. -/
def inputsOf (arguments : List Argument) : List String :=
  arguments.filterMap fun
    | .input path => some path
    | _ => none

/- The values of each use of a setting among arguments. -/
def valuesOf
    (wanted : Setting)
    (arguments : List Argument) : List (List String) :=
  arguments.filterMap fun
    | .setting s values => if s = wanted then some values else none
    | _ => none

/- At most one element, or else nothing. -/
def atMostOne? {α : Type} : List α → Option (Option α)
| [] => some none
| [a] => some (some a)
| _ => none

/- The two ends of a route, if they are given. -/
def routeOf : Option (List String) → Option (String × String)
| some [source, target] => some (source, target)
| _ => none

/- The allowed number of errors, if it is given. -/
def maxErrorsOf? : Option (List String) → Option Nat
| some [text] => readUnsigned? text.toList
| _ => some ({} : Options).maxErrors

/- The output file, if it is given. -/
def outputOf : Option (List String) → Option String
| some [path] => some path
| _ => none

/-
  The invocation that arguments make, unless one is missing,
  given twice, or not a number where one is needed.
-/
def ofArguments? (arguments : List Argument) : Option Invocation := do
  let switches := switchesOf arguments
  if switches.eraseDups.length < switches.length then
    none
  let route ← atMostOne? (valuesOf .route arguments)
  let maxErrors ← atMostOne? (valuesOf .maxErrors arguments)
  let output ← atMostOne? (valuesOf .output arguments)
  let input ← atMostOne? (inputsOf arguments)
  return {
    switches := switches
    route := routeOf route
    maxErrors := ← maxErrorsOf? maxErrors
    output := outputOf output
    input := ← input }

/- The invocation that the words of a command line make. -/
def ofWords? (words : List String) : Option Invocation :=
  (readArguments? words).bind ofArguments?

end Invocation

end DotLang
