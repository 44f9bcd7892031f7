import TileFlow.Text.Rounding

/-!
# Invocations of tools

Each command that a compilation runs, or would run, is recorded with its outcome and the time
it took. A profile lists the slowest commands first.

## Main definitions

* `Duration`: a time in seconds and nanoseconds.
* `Invocation`: a command and its outcome.
* `slowest`: the slowest commands.
* `profileReport`: their times in a table.
-/

namespace TileFlow

/-- A time. -/
structure Duration where
  seconds : Nat := 0
  nanoseconds : Nat := 0
  deriving DecidableEq, Repr, Inhabited

namespace Duration

/-- The time in nanoseconds. -/
def toNanoseconds (d : Duration) : Nat :=
  d.seconds * 1000000000 + d.nanoseconds

/-- The time in seconds with three places, read off the nearest number with 53 binary digits. -/
def render (d : Duration) : String :=
  let whole := Text.nearestBinary (d.seconds + d.nanoseconds / 1000000000) 1
  let part := Text.nearestBinary (d.nanoseconds % 1000000000) 1000000000
  let total := Text.nearestBinary (whole.1 * part.2 + part.1 * whole.2) (whole.2 * part.2)
  Text.fixedPlaces 3 total.1 total.2

end Duration

/-- A command and its outcome (`Invocation`). The code of a tool that a signal stopped is -1. -/
structure Invocation where
  program : String
  args : List String
  code : Int := 0
  elapsed : Duration := {}
  /-- Whether the command was only shown and not run. -/
  skipped : Bool := false
  deriving DecidableEq, Repr, Inhabited

/-- A command as it would be typed (`command_line`). -/
def Invocation.commandLine (i : Invocation) : String :=
  " ".intercalate (i.program :: i.args)

/-- The slowest commands, slowest first (`slowest`); equally slow ones stay in order. -/
def slowest (invocations : List Invocation) (limit : Nat) : List Invocation :=
  (invocations.mergeSort fun a b =>
    decide (b.elapsed.toNanoseconds ≤ a.elapsed.toNanoseconds)).take limit

/-- A table of the slowest commands, one a line (`profile_report`). -/
def profileReport (invocations : List Invocation) (limit : Nat) : String :=
  String.join ((slowest invocations limit).map fun i =>
    Text.padLeft 9 i.elapsed.render ++ "s  " ++ i.commandLine ++ "\n")

end TileFlow
