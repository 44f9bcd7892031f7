import TileFlow.Compile.Run
import TileFlow.Proofs.Tool.Session

/-!
# The steps of a compilation

What a compilation derives from a canonical program is a list of steps that is fixed before the
first of them is taken: lowerings of copies, outputs with their texts, and commands. The steps are
taken one after the other up to the first that fails, and each adds its artifacts to the report.

## Main definitions

* `Command`, `Step`: what is done, and `Step.exec` for doing it.
* `Compilation.plan`: the steps of each branch.
* `Compilation.execAll`: steps one after the other.
* `Compilation.prepare`: what comes before the first step.

## Main results

* `Compilation.branches_eq_plan`: the branches of a compilation are the steps of its plan.
* `Compilation.run_eq`: a run is its preparation and then the steps of all branches.
-/

namespace TileFlow

/-- A command, apart from the program, and the artifacts that it leaves. -/
structure Command where
  args : List String
  leaves : List Artifact

/-- One thing that a compilation does with a canonical program. -/
inductive Step where
  /-- A text is shown, if texts are. -/
  | show (text : String)
  /-- A copy of a program is lowered. -/
  | lower (l : Pipeline) (p : Program)
  /-- An artifact is written. -/
  | emit (a : Artifact) (text : Except CompileError String)
  /-- Two artifacts are written that stay together. -/
  | emitPair (a : Artifact) (text : Except CompileError String) (b : Artifact)
      (text' : Except CompileError String)
  /-- Commands of a program. -/
  | call (program : String) (commands : List Command)
  /-- Commands of a tool of the backend, which is looked for when it is needed. -/
  | callBackend (tool : String) (commands : List Command)

/-- Runs commands of a program up to the first that fails. -/
def Session.runCommands (setting : Setting) (program : String) (commands : List Command) :
    Session (List Artifact) := do
  let left ← commands.mapM fun command => do
    Session.runChecked setting program command.args
    return if setting.dryRun then [] else command.leaves
  return left.flatten

namespace Session

theorem runCommands_nil (setting : Setting) (program : String) :
    runCommands setting program [] = pure [] := rfl

theorem runCommands_cons (setting : Setting) (program : String) (command : Command)
    (rest : List Command) : runCommands setting program (command :: rest) = (do
      runChecked setting program command.args
      let left ← runCommands setting program rest
      return (if setting.dryRun then [] else command.leaves) ++ left) := by
  simp [runCommands]

/-- Commands change the journal as the tools do. -/
theorem Within.runCommands {R : Journal → Journal → Prop} (hR : Accumulates R) {setting : Setting}
    (program : String) (commands : List Command)
    (hfiles : ∀ j launch, R j { j with files := (setting.tools launch j.files).2 })
    (hrecord : ∀ (j : Journal) i, R j { j with invocations := j.invocations ++ [i] }) :
    Within R (runCommands setting program commands) := by
  refine .bind hR (.mapM hR (fun command => ?_) _) fun _ => .of_eq hR fun _ => rfl
  exact .bind hR (.runChecked _ _ hR hfiles hrecord) fun _ => .of_eq hR fun _ => rfl

end Session

/-- Takes a step, and gives its artifacts. -/
def Step.exec (c : Compilation) : Step → Session (List Artifact)
  | .show text => do
    Session.printIf c.options.verbose text
    return []
  | lower l p => do
    Session.printIf c.options.verbose s!"Running: {l.describe}\n"
    Session.ofResult (l.run p).1
    return []
  | emit a text => do
    return [← Session.changeFiles (a.emit c.setting.directory text)]
  | emitPair a text b text' => do
    let (a, b) ← Session.changeFiles (a.emitPair c.setting.directory text b text')
    return [a, b]
  | call program commands => Session.runCommands c.toolSetting program commands
  | callBackend tool commands => do
    Session.runCommands c.toolSetting (← c.backendTool tool) commands

/-- The program that a pipeline leaves. -/
def Pipeline.result (l : Pipeline) (p : Program) : Program :=
  (l.run p).2

namespace Compilation

variable {c : Compilation} {m : Canonical}

/-- Takes steps one after the other. -/
def execAll (c : Compilation) (steps : List Step) : Session (List Artifact) := do
  return (← steps.mapM (Step.exec c)).flatten

/-- The steps of the instruction stream. -/
def ipuSteps (c : Compilation) (m : Canonical) : List Step :=
  [.lower .ipu m.program,
    .emit ⟨.ipuInstructions, Canonical.output m c.options.ipuInstsName⟩
      ((Pipeline.ipu.result m.program).instructionWords.map renderWords)]

/-- The executable of a core. -/
def linkCommand (m : Canonical) (entry : String) : Command where
  args := ["-O2", s!"--target={backendTriple m.targetArch}", "-nostdlib", s!"-Wl,--entry={entry}",
    Canonical.output m "input.o", "-o", Canonical.output m (entry ++ ".elf")]
  leaves := [⟨.coreElf, Canonical.output m (entry ++ ".elf")⟩]

/-- The steps from the text of the cores to their executables. -/
def compileSteps (c : Compilation) (m : Canonical) : List Step :=
  [.callBackend "opt" [{
      args := ["--passes=default<O2>", "-inline-threshold=10", "-S",
        Canonical.output m "input.ll", "-o", Canonical.output m "input.opt.ll"]
      leaves := [⟨.optimizedLlvmIr, Canonical.output m "input.opt.ll"⟩] }],
    .callBackend "llc" [{
      args := [Canonical.output m "input.opt.ll", "-O2", s!"--march={Text.toLower m.targetArch}",
        "--function-sections", "--filetype=obj", "-o", Canonical.output m "input.o"]
      leaves := [⟨.object, Canonical.output m "input.o"⟩] }]] ++
  if c.options.link then [.callBackend "clang" (m.program.coreSymbols.map (linkCommand m))] else []

/-- The steps of the cores. -/
def unifiedSteps (c : Compilation) (m : Canonical) : List Step :=
  [.lower .unified m.program,
    .emit ⟨.llvmIr, Canonical.output m "input.ll"⟩
      (Pipeline.unified.result m.program).backendText] ++
  if c.options.compile then c.compileSteps m else []

/-- The steps of the host. -/
def hostSteps (c : Compilation) (m : Canonical) : List Step :=
  [.show "Host compilation\n", .lower .host m.program,
    .emitPair ⟨.hostGlue, Canonical.output m "aie_inc.cpp"⟩
      (Pipeline.host.result m.program).hostGlue
      ⟨.deviceConfig, Canonical.output m "aie_control.cpp"⟩
      (Pipeline.host.result m.program).deviceConfig] ++
  if c.options.compileHost && !c.options.hostArgs.isEmpty then
    [.call "clang++" [⟨(c.hostBuild m).compilerArgs, []⟩]] else []

/-- The steps of the package. -/
def xclbinSteps (c : Compilation) (m : Canonical) : List Step :=
  let spec := c.kernelSpec m.program
  let output := Canonical.output m c.options.xclbinName
  [.emit ⟨.kernelMetadata, Canonical.output m "kernels.json"⟩
      (.ok (c.setting.writeJson spec.kernels)),
    .emit ⟨.kernelMetadata, Canonical.output m "mem_topology.json"⟩
      (.ok (c.setting.writeJson memoryTopology)),
    .emit ⟨.kernelMetadata, Canonical.output m "aie_partition.json"⟩
      (.ok (c.setting.writeJson (spec.partition (Canonical.output m "aie_control.cpp")))),
    .call "xclbinutil" [{
      args := ["--add-replace-section",
        "MEM_TOPOLOGY:JSON:" ++ Canonical.output m "mem_topology.json",
        "--add-kernel", Canonical.output m "kernels.json",
        "--add-replace-section", "AIE_PARTITION:JSON:" ++ Canonical.output m "aie_partition.json",
        "--force", "--output", output]
      leaves := [⟨.xclbin, output⟩] }]]

/-- The steps of a branch that is only taken if asked for. -/
def planIf (asked : Bool) (branch : Branch) (steps : List Step) : List (Branch × List Step) :=
  if asked then [(branch, steps)] else []

/-- The branches of a canonical program, with their steps. -/
def plan (c : Compilation) (m : Canonical) : List (Branch × List Step) :=
  let o := c.options
  let ipu := planIf (o.generateIpu || o.onlyGenerateIpu) .ipu (c.ipuSteps m)
  if o.onlyGenerateIpu then ipu
  else
    ipu ++ planIf o.unified .unified (c.unifiedSteps m) ++ planIf true .host (c.hostSteps m) ++
      planIf o.generateXclbin .xclbin (c.xclbinSteps m)

/-- The steps of all branches. -/
def steps (c : Compilation) (m : Canonical) : List Step :=
  (c.plan m).flatMap (·.2)

/-- Takes the steps of branches, and gives the artifacts of each. -/
def execPlan (c : Compilation) (plan : List (Branch × List Step)) :
    Session (List (Branch × List Artifact)) :=
  plan.mapM fun (branch, steps) => do return (branch, ← c.execAll steps)

/-- The path of the working directory. -/
def workDir (c : Compilation) : String :=
  c.options.resolveWorkDir c.setting.directory.path

/-- What comes before the first step. -/
def prepare (c : Compilation) : Session Canonical := do
  c.createWorkDir c.workDir
  c.canonicalize c.workDir

/-- The report on the steps of a canonical program. -/
def reportOn (c : Compilation) (m : Canonical) (artifacts : List Artifact)
    (invocations : List Invocation) : Report where
  workDir := c.workDir
  targetArch := m.targetArch
  branches := (c.plan m).map (·.1)
  artifacts
  invocations

/-! ### Steps one after the other -/

theorem execAll_nil : c.execAll [] = pure [] := rfl

theorem execAll_cons (s : Step) (rest : List Step) : c.execAll (s :: rest) = (do
    let a ← s.exec c
    let b ← c.execAll rest
    return a ++ b) := by
  simp [execAll]

/-- Two lists of steps in a row are run one after the other. -/
theorem execAll_append (l l' : List Step) : c.execAll (l ++ l') = (do
    let a ← c.execAll l
    let b ← c.execAll l'
    return a ++ b) := by
  simp [execAll]

/-- Two plans in a row are run one after the other. -/
theorem execPlan_append (l l' : List (Branch × List Step)) : c.execPlan (l ++ l') = (do
    let a ← c.execPlan l
    let b ← c.execPlan l'
    return a ++ b) := by
  simp [execPlan]

/-- The artifacts of branches are those of all their steps. -/
theorem execPlan_eq_execAll (plan : List (Branch × List Step)) :
    (fun taken : List (Branch × List Artifact) => (taken.map (·.1), taken.flatMap (·.2))) <$>
        c.execPlan plan =
      (fun artifacts => (plan.map (·.1), artifacts)) <$> c.execAll (plan.flatMap (·.2)) := by
  induction plan with
  | nil => rfl
  | cons b rest ih =>
      have key := congrArg (fun x : Session (List Branch × List Artifact) => (do
        let a ← c.execAll b.2
        let r ← x
        return (b.1 :: r.1, a ++ r.2))) ih
      simpa [execPlan, execAll_append] using key

/-- A pipeline is a step, and leaves its result. -/
theorem runPipeline_eq (l : Pipeline) (p : Program) : c.runPipeline l p = (do
    let _ ← (Step.lower l p).exec c
    return l.result p) := by
  rcases h : l.run p with ⟨_ | ⟨⟩, q⟩ <;>
    simp [runPipeline, Step.exec, Pipeline.result, h, Except.map, Session.ofResult]

/-- A step that shows a text adds to what is printed and does nothing else. -/
theorem runOn_show (text : String) (j : Journal) :
    ∃ printed, Session.runOn ((Step.show text).exec c) j = (.ok [], { j with printed }) := by
  rw [Step.exec, Session.runOn_bind, Session.runOn_printIf]
  exact ⟨_, rfl⟩

/-- A step that lowers adds to what is printed and fails where the pipeline fails. -/
theorem runOn_lower (l : Pipeline) (p : Program) (j : Journal) :
    ∃ printed, Session.runOn ((Step.lower l p).exec c) j =
      ((l.run p).1.map fun () => [], { j with printed }) := by
  rw [Step.exec, Session.runOn_bind, Session.runOn_printIf]
  dsimp only
  rw [Session.runOn_bind, Session.runOn_ofResult]
  rcases (l.run p).1 with e | ⟨⟩ <;> exact ⟨_, rfl⟩

/-- A step that emits writes its artifact. -/
theorem runOn_emit (a : Artifact) (text : Except CompileError String) (j : Journal) :
    Session.runOn ((Step.emit a text).exec c) j =
      ((a.emit c.setting.directory text j.files).1.map ([·]),
        { j with files := (a.emit c.setting.directory text j.files).2 }) := by
  rw [Step.exec, Session.runOn_bind, Session.runOn_changeFiles]
  rcases a.emit c.setting.directory text j.files with ⟨e | a, t⟩ <;> rfl

/-- A step that emits two artifacts writes both or none. -/
theorem runOn_emitPair (a : Artifact) (text : Except CompileError String) (b : Artifact)
    (text' : Except CompileError String) (j : Journal) :
    Session.runOn ((Step.emitPair a text b text').exec c) j =
      ((a.emitPair c.setting.directory text b text' j.files).1.map fun (a, b) => [a, b],
        { j with files := (a.emitPair c.setting.directory text b text' j.files).2 }) := by
  rw [Step.exec, Session.runOn_bind, Session.runOn_changeFiles]
  rcases a.emitPair c.setting.directory text b text' j.files with ⟨e | ⟨a, b⟩, t⟩ <;> rfl

/-- A tool of the backend is looked for in the files of the moment. -/
theorem runOn_callBackend (tool : String) (commands : List Command) (j : Journal) :
    Session.runOn ((Step.callBackend tool commands).exec c) j =
      Session.runOn (Session.runCommands c.toolSetting
        (c.setting.toolchain.backendTool j.files c.setting.directory tool) commands) j := by
  rw [Step.exec, Session.runOn_bind, backendTool, Session.runOn_bind, Session.runOn_files]
  rfl

/-! ### The branches -/

/-- The instruction branch is a list of steps. -/
theorem ipuBranch_eq : (do return [← c.ipuBranch m]) = c.execAll (c.ipuSteps m) := by
  simp [ipuBranch, ipuSteps, execAll_cons, execAll_nil, runPipeline_eq, Step.exec, Session.emit,
    toolSetting]

/-- Linking the cores is one step, with one command for each core. -/
theorem linkCores_eq : c.linkCores m (Canonical.output m "input.o") =
    (Step.callBackend "clang" (m.program.coreSymbols.map (linkCommand m))).exec c := by
  simp only [linkCores, Step.exec, Session.runCommands, List.mapM_map]
  rfl

/-- Compiling the cores is a list of steps. -/
theorem compileCores_eq : c.compileCores m (Canonical.output m "input.ll") =
    c.execAll (c.compileSteps m) := by
  cases h : c.options.link <;>
    simp [compileCores, compileSteps, h, execAll_cons, execAll_nil, linkCores_eq, Step.exec,
      Session.runCommands, Session.produced]

/-- The branch of the unified function is a list of steps. -/
theorem unifiedBranch_eq : c.unifiedBranch m = c.execAll (c.unifiedSteps m) := by
  cases h : c.options.compile <;>
    simp [unifiedBranch, unifiedSteps, h, execAll_cons, execAll_nil, runPipeline_eq, Step.exec,
      compileCores_eq, Session.emit, toolSetting]

/-- The host branch is a list of steps. -/
theorem hostBranch_eq : c.hostBranch m = c.execAll (c.hostSteps m) := by
  cases h : c.options.compileHost <;> cases h' : c.options.hostArgs.isEmpty <;>
    simp [hostBranch, hostSteps, h, h', execAll_cons, execAll_nil, runPipeline_eq, Step.exec,
      hostBuild, HostBuild.run, Session.runCommands]

/-- The package branch is a list of steps. -/
theorem xclbinBranch_eq : c.xclbinBranch m = c.execAll (c.xclbinSteps m) := by
  simp [xclbinBranch, KernelSpec.bundle, xclbinSteps, execAll_cons, execAll_nil, Step.exec,
    Session.runCommands, Session.emit]
  rfl

/-- A branch that is run when asked is a plan. -/
theorem branchIf_eq (asked : Bool) (branch : Branch) (steps : List Step) :
    branchIf asked branch (c.execAll steps) = c.execPlan (planIf asked branch steps) := by
  cases asked <;> simp [branchIf, planIf, execPlan]

/-- The branches of a compilation are the steps of its plan. -/
theorem branches_eq_plan : c.branches m = c.execPlan (c.plan m) := by
  simp only [branches, ipuBranch_eq, unifiedBranch_eq, hostBranch_eq, xclbinBranch_eq, branchIf_eq]
  cases h : c.options.onlyGenerateIpu <;> simp [plan, h, execPlan_append]

/-- A run prepares a canonical program and takes the steps of its plan. -/
theorem run_eq : c.run = (do
    let m ← c.prepare
    let artifacts ← c.execAll (c.steps m)
    return c.reportOn m artifacts (← get).invocations) := by
  have key (m : Canonical) := congrArg (fun x : Session (List Branch × List Artifact) => (do
    let r ← x
    let j ← get
    return ({
      workDir := c.workDir
      targetArch := m.targetArch
      branches := r.1
      artifacts := r.2
      invocations := j.invocations } : Report))) (execPlan_eq_execAll (c := c) (c.plan m))
  simp only [bind_map_left] at key
  simp only [workDir] at key
  simp only [run, workDir, prepare, branches_eq_plan, bind_assoc, key, reportOn, steps]

end Compilation

end TileFlow
