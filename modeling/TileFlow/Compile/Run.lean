import TileFlow.Compile.HostBuild
import TileFlow.Compile.Options
import TileFlow.Compile.Report
import TileFlow.Emit.HostSources
import TileFlow.Emit.InstructionStream
import TileFlow.Emit.Llvm
import TileFlow.Emit.Target
import TileFlow.Package.Bundle
import TileFlow.Program.Print
import TileFlow.Stage.Pipeline

/-!
# Compilation

A source is read and brought into canonical form once. Every output is derived from a copy of
the canonical program: the instruction stream, the object of the cores, the sources of the host
and the package. Nothing that one branch does to its copy is seen by another.

## Main definitions

* `Compilation`: the options, the setting and the stages of a run.
* `Compilation.run`: the run.
-/

namespace TileFlow

/-- What a run depends on (`Driver`). -/
structure Compilation where
  options : Options
  setting : Setting
  /-- Stages after those of the canonical form. -/
  extraStages : List Stage := []

/-- The canonical program with what every branch needs to know about it. -/
structure Canonical where
  program : Program
  workDir : String
  targetArch : String

namespace Compilation

/-- The setting of the tools: commands are shown and left out as the options say. -/
def toolSetting (c : Compilation) : Setting :=
  { c.setting with verbose := c.options.verbose, dryRun := c.options.dryRun }

/-- Creates the working directory (`create_work_dir`). One that exists is used as it is. -/
def createWorkDir (c : Compilation) (path : String) : Session Unit :=
  Session.changeFiles fun t =>
    match t.makeDirectory c.setting.directory path with
    | .ok t => (.ok (), t)
    | .error e =>
      if e = .alreadyExists ∧ t.isDirectory c.setting.directory path then (.ok (), t)
      else (.error (.workDir path e), t)

/-- Reads the source (`load_module`). -/
def load (c : Compilation) : Session Program := do
  let t ← Session.files
  match t.readText c.setting.directory c.options.input with
  | .error e => throw (.read c.options.input e)
  | .ok source => Session.ofResult (Source.parse source)

/-- Runs a pipeline on a program (`run_pipeline`). -/
def runPipeline (c : Compilation) (l : Pipeline) (p : Program) : Session Program := do
  Session.printIf c.options.verbose s!"Running: {l.describe}\n"
  let (result, q) := l.run p
  Session.ofResult (result.map fun () => q)

/-- Reads the source and brings it into canonical form (`canonicalize_pipeline` and `run`). -/
def canonicalize (c : Compilation) (workDir : String) : Session Canonical := do
  let p ← c.load
  Session.printIf c.options.verbose p.print
  let p ← c.runPipeline (Pipeline.canonicalize.extend c.extraStages) p
  Session.printIf c.options.verbose p.print
  let targetArch ← Session.ofResult (p.targetArch.bind validateArch)
  Session.print s!"target arch: {backendTriple targetArch}\n"
  return ⟨p, workDir, targetArch⟩

/-- The path of an output. -/
def Canonical.output (m : Canonical) (name : String) : String :=
  Path.join m.workDir name

/-- A tool of the backend, as it is found at this moment (`peano_tool`). -/
def backendTool (c : Compilation) (tool : String) : Session String := do
  return c.setting.toolchain.backendTool (← Session.files) c.setting.directory tool

/-- The branch of the instruction stream (`ipu_branch`). -/
def ipuBranch (c : Compilation) (m : Canonical) : Session Artifact := do
  let p ← c.runPipeline .ipu m.program
  Session.emit c.toolSetting .ipuInstructions (Canonical.output m c.options.ipuInstsName)
    (p.instructionWords.map renderWords)

/-- Links an executable for each core (in `unified_branch`). -/
def linkCores (c : Compilation) (m : Canonical) (object : String) : Session (List Artifact) := do
  let clang ← c.backendTool "clang"
  let linked ← m.program.coreSymbols.mapM fun entry => do
    let elf := Canonical.output m (entry ++ ".elf")
    Session.runChecked c.toolSetting clang
      ["-O2", s!"--target={backendTriple m.targetArch}", "-nostdlib", s!"-Wl,--entry={entry}",
        object, "-o", elf]
    return Session.produced c.toolSetting .coreElf elf
  return linked.flatten

/-- Compiles the text of the cores into an object, and links it if asked to (in `unified_branch`).
-/
def compileCores (c : Compilation) (m : Canonical) (backendText : String) :
    Session (List Artifact) := do
  let optimized := Canonical.output m "input.opt.ll"
  Session.runChecked c.toolSetting (← c.backendTool "opt")
    ["--passes=default<O2>", "-inline-threshold=10", "-S", backendText, "-o", optimized]
  let object := Canonical.output m "input.o"
  Session.runChecked c.toolSetting (← c.backendTool "llc")
    [optimized, "-O2", s!"--march={Text.toLower m.targetArch}", "--function-sections",
      "--filetype=obj", "-o", object]
  let linked ← if c.options.link then c.linkCores m object else pure []
  return Session.produced c.toolSetting .optimizedLlvmIr optimized ++
    Session.produced c.toolSetting .object object ++ linked

/-- The branch of the cores, all in one text (`unified_branch`). -/
def unifiedBranch (c : Compilation) (m : Canonical) : Session (List Artifact) := do
  let p ← c.runPipeline .unified m.program
  let text := Canonical.output m "input.ll"
  let artifact ← Session.emit c.toolSetting .llvmIr text p.backendText
  let compiled ← if c.options.compile then c.compileCores m text else pure []
  return artifact :: compiled

/-- The build of the host program (in `host_branch`). -/
def hostBuild (c : Compilation) (m : Canonical) : HostBuild where
  hostTarget := c.options.hostTarget
  installDir := c.options.installDir
  workDir := m.workDir
  targetArch := m.targetArch
  hostArgs := c.options.hostArgs
  sysroot := c.options.sysroot
  aietoolsRoot := c.setting.toolchain.aietoolsRoot

/-- The branch of the host (`host_branch`): its sources and its program. -/
def hostBranch (c : Compilation) (m : Canonical) : Session (List Artifact) := do
  Session.printIf c.options.verbose "Host compilation\n"
  let p ← c.runPipeline .host m.program
  let (glue, config) ← Session.changeFiles <|
    Artifact.emitPair c.setting.directory
      ⟨.hostGlue, Canonical.output m "aie_inc.cpp"⟩ p.hostGlue
      ⟨.deviceConfig, Canonical.output m "aie_control.cpp"⟩ p.deviceConfig
  if c.options.compileHost then
    let _ ← (c.hostBuild m).run c.toolSetting
  return [glue, config]

/-- What the package of a program states (in `run`). -/
def kernelSpec (c : Compilation) (p : Program) : KernelSpec where
  kernelName := c.options.kernelName
  instanceName := c.options.instanceName
  kernelId := c.options.kernelId
  bufferArgs := p.bufferArgs
  columnWidth := p.columnWidth

/-- The branch of the package (in `run`). -/
def xclbinBranch (c : Compilation) (m : Canonical) : Session (List Artifact) :=
  (c.kernelSpec m.program).bundle c.toolSetting (Canonical.output m "aie_control.cpp") m.workDir
    (Canonical.output m c.options.xclbinName)

/-- A branch that is only taken if asked for. -/
def branchIf (asked : Bool) (branch : Branch) (artifacts : Session (List Artifact)) :
    Session (List (Branch × List Artifact)) := do
  if asked then return [(branch, ← artifacts)] else return []

/-- The branches of a canonical program, with their artifacts (in `run`). -/
def branches (c : Compilation) (m : Canonical) : Session (List (Branch × List Artifact)) := do
  let o := c.options
  let ipu ← branchIf (o.generateIpu || o.onlyGenerateIpu) .ipu (do return [← c.ipuBranch m])
  if o.onlyGenerateIpu then return ipu
  let unified ← branchIf o.unified .unified (c.unifiedBranch m)
  let host ← branchIf true .host (c.hostBranch m)
  let xclbin ← branchIf o.generateXclbin .xclbin (c.xclbinBranch m)
  return ipu ++ unified ++ host ++ xclbin

/-- Compiles the input into all that the options ask for (`run`). -/
def run (c : Compilation) : Session Report := do
  let workDir := c.options.resolveWorkDir c.setting.directory.path
  c.createWorkDir workDir
  let m ← c.canonicalize workDir
  let taken ← c.branches m
  return {
    workDir
    targetArch := m.targetArch
    branches := taken.map (·.1)
    artifacts := taken.flatMap (·.2)
    invocations := (← get).invocations }

end Compilation

end TileFlow
