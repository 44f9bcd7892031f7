import TileFlow.Files.Basic
import TileFlow.Tool.Invocation

/-!
# Starting tools

What a tool does is not known here: a compilation is given a function that says, for each start
of a tool and the files at that moment, how the tool ends and which files it leaves.

## Main definitions

* `Launch`: the start of a tool, with `Launch.refusal?` for one that is not even tried.
* `Ending`: how it ended.
* `Tools`: what tools do.
-/

namespace TileFlow

/-- The start of a tool. -/
structure Launch where
  program : String
  args : List String
  /-- The variables that are set for the tool. -/
  environment : List (String × String)
  directory : Location
  deriving DecidableEq, Repr

/-- A text that a program is given takes at most this many bytes, its end mark among them. -/
def argumentLimit : Nat := 131072

/-- Why a tool is not started, whatever there is under its name: a text that it would be given
holds a character with the code zero, or is too long. -/
def Launch.refusal? (l : Launch) : Option SystemError :=
  let given := l.args ++ l.environment.map fun (name, value) => s!"{name}={value}"
  if (l.program :: given).any (·.toList.contains '\x00') then some .nulInArgument
  else if given.any (argumentLimit < ·.utf8ByteSize + 1) then some .tooManyArguments
  else none

/-- How a tool ended: its exit code unless a signal stopped it, what it wrote and the time it
took. -/
structure Ending where
  code : Option Nat
  output : String := ""
  errors : String := ""
  elapsed : Duration := {}
  deriving DecidableEq, Repr

/-- The code under which an end is recorded. -/
def Ending.recordedCode (e : Ending) : Int :=
  match e.code with
  | some code => code
  | none => -1

/-- What tools do: a start fails or ends, and leaves files. -/
abbrev Tools := Launch → FileTree → Except SystemError Ending × FileTree

end TileFlow
