import TileFlow.CommandLine.Arguments
import TileFlow.Compile.Run

/-!
# The command line

## Main definitions

* `Outcome`: what a call of the program leaves behind.
* `run`: the call with some arguments.
-/

namespace TileFlow.CommandLine

/-- What a call leaves behind: its exit code, what it wrote and the files. -/
structure Outcome where
  code : Nat
  output : String := ""
  errors : String := ""
  files : FileTree

/-- What a call finds: the variables, the current directory, the tools, the installation that
the program belongs to, the files, and how documents are written. -/
structure Surroundings where
  host : HostEnvironment
  directory : Location
  tools : Tools
  installation : String
  files : FileTree
  writeJson : Json → String := Json.pretty

/-- The name and the number of the program. -/
def versionText : String := "aiecc 0.1.0\n"

/-- How the program is called. -/
def usageText : String := "Usage: aiecc [OPTIONS] <INPUT> [-- <HOST_ARGS>...]\n"

/-- What the program is for and how it is called. -/
def helpText : String :=
  "Lowers AIE dataflow programs into device, host and instruction-stream artifacts\n\n" ++
    usageText ++ "\nOptions:\n" ++
    String.join (optionSpecs.map fun spec =>
      (match spec.letter with
        | some c => s!"  -{c}, "
        | none => "      ") ++ s!"--{spec.name}\n")

/-- The lines before a run that shows what it does. -/
def header (input : String) : String :=
  "AIE Compiler Driver\n" ++ ruler 35 '=' ++ s!"Input: {input}\n\n"

/-- The run that options ask for. -/
def compilation (s : Surroundings) (options : Options) : Compilation where
  options
  setting := {
    directory := s.directory
    tools := s.tools
    toolchain := Toolchain.discover s.files s.directory options.peano s.host
    writeJson := s.writeJson }

/-- The call that compiles (in `main`, `print_report`, `print_profile`). -/
def runCompile (s : Surroundings) (options : Options) (json profile : Bool) : Outcome :=
  let opening := if options.verbose then header options.input else ""
  let (result, j) := (compilation s options).run.runOn { files := s.files }
  match result with
  | .error e =>
    { code := 1
      output := opening ++ j.printed
      errors := j.complaints ++ s!"Error: {e.message}\n"
      files := j.files }
  | .ok report =>
    let shown := if json then s.writeJson report.document ++ "\n" else report.summary
    { code := 0
      output := opening ++ j.printed ++ shown ++ if profile then report.profile else ""
      errors := j.complaints
      files := j.files }

/-- The call with some arguments (`main`). -/
def run (s : Surroundings) (args : List String) : Outcome :=
  match Arguments.parse s.installation args with
  | .error e =>
    { code := 2, errors := s!"error: {e.message}\n\n" ++ usageText, files := s.files }
  | .ok .help => { code := 0, output := helpText, files := s.files }
  | .ok .version => { code := 0, output := versionText, files := s.files }
  | .ok (.compile options json profile) => runCompile s options json profile

end TileFlow.CommandLine
