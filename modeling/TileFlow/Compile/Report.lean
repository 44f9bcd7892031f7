import TileFlow.Files.Artifact
import TileFlow.Text.Json
import TileFlow.Tool.Invocation

/-!
# Reports

What a compilation has to show for itself: the branches it took, the artifacts it kept and the
commands it ran.

## Main definitions

* `Branch`: what is derived from the canonical program.
* `Report`: the outcome of a compilation.
* `Report.document`, `Report.summary`, `Report.profile`: its written forms.
-/

namespace TileFlow

/-- What is derived from the canonical program (`Branch`). -/
inductive Branch where
  | ipu
  | unified
  | host
  | xclbin
  deriving DecidableEq, Repr

/-- The name under which a branch is reported. -/
def Branch.name : Branch → String
  | ipu => "Ipu"
  | unified => "Unified"
  | host => "Host"
  | xclbin => "Xclbin"

/-- The outcome of a compilation (`CompileReport`). -/
structure Report where
  workDir : String
  targetArch : String
  branches : List Branch := []
  artifacts : List Artifact := []
  invocations : List Invocation := []
  deriving DecidableEq, Repr

/-- The document of an artifact. -/
def Artifact.document (a : Artifact) : Json :=
  .record [("kind", .text a.kind.name), ("path", .text a.path)]

/-- The document of a command. -/
def Invocation.document (i : Invocation) : Json :=
  .record [("program", .text i.program), ("args", .list (i.args.map .text)),
    ("code", .integer i.code),
    ("elapsed", .record [("secs", .number i.elapsed.seconds),
      ("nanos", .number i.elapsed.nanoseconds)]),
    ("skipped", .bool i.skipped)]

/-- A line of a character. -/
def ruler (width : Nat) (c : Char) : String :=
  String.ofList (List.replicate width c) ++ "\n"

namespace Report

/-- The document of a report (`to_json`). -/
def document (r : Report) : Json :=
  .record [("work_dir", .text r.workDir), ("target_arch", .text r.targetArch),
    ("branches", .list (r.branches.map fun b => .text b.name)),
    ("artifacts", .list (r.artifacts.map (·.document))),
    ("invocations", .list (r.invocations.map (·.document)))]

/-- The report as lines of text (`print_report`). -/
def summary (r : Report) : String :=
  "Compilation Results\n" ++ ruler 50 '=' ++
    s!"Target: {r.targetArch}\n" ++
    s!"Working directory: {r.workDir}\n" ++
    "Branches: [" ++ ", ".intercalate (r.branches.map (·.name)) ++ "]\n" ++
    String.join (r.artifacts.map fun a =>
      "  " ++ Text.padRight 16 a.kind.name ++ " " ++ a.path ++ "\n")

/-- The ten slowest commands (`print_profile`). -/
def profile (r : Report) : String :=
  "\nSlowest commands\n" ++ ruler 50 '-' ++ profileReport r.invocations 10

end Report

end TileFlow
