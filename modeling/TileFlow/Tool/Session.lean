import TileFlow.Files.Artifact
import TileFlow.Text.Json
import TileFlow.Tool.Launch
import TileFlow.Tool.Toolchain

/-!
# Sessions

A session is what a compilation does to the world: it changes files, prints, and starts tools,
and may end with an error at any point. What it has done by then stays done.

Every tool is started in one way, which shows the command if asked to, leaves it out in a dry
run, and records it.

## Main definitions

* `Journal`: the files, what was printed and the commands so far.
* `Setting`: what stays the same during a session.
* `Session`: actions that change a journal and may end with an error.
* `Session.runTool`, `Session.runChecked`: the start of a tool.
* `Session.emit`, `Session.produced`: artifacts.
-/

namespace TileFlow

/-- The files of a session, what was printed, what tools complained of, and the commands
(`ToolRunner`). -/
structure Journal where
  files : FileTree := {}
  printed : String := ""
  complaints : String := ""
  invocations : List Invocation := []
  deriving Inhabited

/-- What stays the same during a session (`ToolRunner`). -/
structure Setting where
  /-- The directory that relative paths start from. -/
  directory : Location := []
  tools : Tools
  toolchain : Toolchain := {}
  /-- The written form of a document (`to_string_pretty`). -/
  writeJson : Json → String := Json.pretty
  /-- Whether commands are shown. -/
  verbose : Bool := false
  /-- Whether commands are left out. -/
  dryRun : Bool := false

/-- Actions that change a journal and may end with an error. -/
abbrev Session (α : Type) : Type :=
  ExceptT CompileError (StateM Journal) α

namespace Session

variable {α : Type}

/-- Runs an action on a journal. -/
def runOn (x : Session α) (j : Journal) : Except CompileError α × Journal :=
  Id.run (StateT.run (ExceptT.run x) j)

/-- A result that may be an error. -/
def ofResult (r : Except CompileError α) : Session α :=
  match r with
  | .ok a => pure a
  | .error e => throw e

/-- Prints a text. -/
def print (s : String) : Session Unit :=
  modify fun j => { j with printed := j.printed ++ s }

/-- Prints a text if a condition holds. -/
def printIf (condition : Bool) (s : String) : Session Unit :=
  if condition then print s else pure ()

/-- The files at this moment. -/
def files : Session FileTree := do
  return (← get).files

/-- Changes the files in a way that may fail. -/
def changeFiles (f : FileTree → Except CompileError α × FileTree) : Session α := do
  let (result, files) := f (← files)
  modify fun j => { j with files := files }
  ofResult result

/-- Records a command. -/
def record (i : Invocation) : Session Unit :=
  modify fun j => { j with invocations := j.invocations ++ [i] }

/-- Starts a tool and waits for its end (in `run`). A tool that cannot be started is not recorded.
-/
def start (setting : Setting) (program : String) (args : List String) : Session Ending := do
  let launch : Launch :=
    { program, args
      environment := setting.toolchain.environment
      directory := setting.directory }
  let ending ← changeFiles fun t =>
    let (result, t) : Except SystemError Ending × FileTree := match launch.refusal? with
      | some e => (.error e, t)
      | none => setting.tools launch t
    (result.mapError (.toolSpawn program), t)
  modify fun j => { j with
    printed := j.printed ++ ending.output
    complaints := j.complaints ++ ending.errors }
  return ending

/-- Runs a tool, or only records it in a dry run, and gives its exit code (`run`). -/
def runTool (setting : Setting) (program : String) (args : List String) : Session Int := do
  let command : Invocation := { program, args, skipped := setting.dryRun }
  printIf setting.verbose s!"Run: {command.commandLine}\n"
  if setting.dryRun then
    record command
    return 0
  else
    let ending ← start setting program args
    let code := ending.recordedCode
    let outcome := if code = 0 then "Succeeded" else "Failed"
    printIf setting.verbose s!"{outcome} in {ending.elapsed.render}s code: {code}\n"
    record { command with code, elapsed := ending.elapsed }
    return code

/-- Runs a tool whose exit code must be zero (`run_checked`). -/
def runChecked (setting : Setting) (program : String) (args : List String) : Session Unit := do
  let code ← runTool setting program args
  if code = 0 then pure () else throw (.toolFailed program code)

/-- Writes and keeps an artifact (`emit_artifact`). -/
def emit (setting : Setting) (kind : ArtifactKind) (path : String)
    (text : Except CompileError String) : Session Artifact :=
  changeFiles (Artifact.emit setting.directory ⟨kind, path⟩ text)

/-- An artifact that a tool leaves, if tools are run (`produced`). -/
def produced (setting : Setting) (kind : ArtifactKind) (path : String) : List Artifact :=
  if setting.dryRun then [] else [⟨kind, path⟩]

end Session

end TileFlow
