import TileFlow.Shell.Evaluation
import TileFlow.Tool.Launch

/-!
# Tools that are scripts

What a tool does is a parameter of every compilation. Here is the instance that the program runs
with, and `TileFlow/Shell` supports it: a tool is started like any other program, it is found by its
name, and is a shell on a script. It finds nothing on its input, and what it writes is collected.
No other part of the library depends on the interpreter of scripts.

## Main definitions

* `depthLimit`: how deep commands, functions and scripts may be nested.
* `runTool`: the effect of a shell with some arguments.
* `tools`: tools that are scripts.
-/

namespace TileFlow.Script

/-- How deep commands, functions and scripts may be nested when they run. -/
def depthLimit : Nat := 2500

/-- The variables of an environment, of which those that are set anew come in the place of
others. -/
def overridden (inherited given : List (String × String)) : List (String × String) :=
  given ++ inherited.filter fun (name, _) => (given.lookup name).isNone

/-- A world with an empty input and two outputs. -/
def startWorld (files : FileTree) (process : Nat) : World where
  files := files
  channels := #[{ endpoint := .device .null, readable := true },
    { endpoint := .buffer [], readable := true, writable := true },
    { endpoint := .buffer [], readable := true, writable := true }]
  nextProcess := process + 1
  running := [process]

/-- The effect of a shell with some arguments, its own name first. -/
def runTool (args : List String) (environment : List (String × String)) (directory : Location)
    (files : FileTree) : Ending × FileTree :=
  let process := 4096
  let shell : Shell :=
    { process
      mainProcess := process
      name := args.head?.getD ""
      bindings := Sh.startVariables environment directory
      directory
      streams := [(0, 0), (1, 1), (2, 2)] }
  let self := evaluate depthLimit
  let (outcome, m) := Id.run (StateT.run (ExceptT.run (Sh.finish self (Sh.runShell self args)))
    { world := startWorld files process, shell })
  let code := match outcome with
    | .ok (.exited code) => some code
    | _ => none
  ({ code
     output := Text.decodeLossy (m.world.unreadOf 1)
     errors := Text.decodeLossy (m.world.unreadOf 2) }, m.world.files)

/-- Tools that are scripts, for the variables that they find besides those that are set. -/
def tools (inherited : List (String × String)) : Tools := fun launch t =>
  let encoded (s : String) : String := ByteText.encode s
  let environment := (overridden inherited launch.environment).map fun (name, value) =>
    (encoded name, encoded value)
  let args := (launch.program :: launch.args).map encoded
  let path := encoded ((launch.environment.lookup "PATH").getD "")
  match findProgram t launch.directory path (encoded launch.program) args with
  | .error e => (.error e, t)
  | .ok args =>
    let (ending, t) := runTool args environment launch.directory t
    (.ok ending, t)

end TileFlow.Script
