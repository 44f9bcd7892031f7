import TileFlow.Proofs.Compile.Outputs
import TileFlow.Proofs.Files.Alike

/-!
# Dry runs

A dry run leaves out the tools and does all else. Where tools end as they should and leave alone the
files that the compilation itself looks at, it therefore ends as the run does, shows the commands of
the run, and writes the same outputs: all that is missing are the artifacts of the tools.

The two runs are compared step by step. A tool may create files in between, so that new files of the
compilation have other identities then; this is all that the trees of the two runs differ in.

## Main definitions

* `Compilation.withDryRun`: a compilation with or without its tools.
* `Compilation.watched`: the locations that a compilation itself looks at.
* `Compilation.Quiet`: tools end as they should, and leave those locations alone.
* `Compilation.ShowsRun`: a dry run shows what a run does.

## Main results

* `Compilation.exec_inStep`, `Compilation.execAll_inStep`: steps are taken in step.
* `Compilation.dryRun_showsRun`: a dry run shows what a run does.
-/

namespace TileFlow

open FileTree

/-- Commands are the same, and all of the first ones were left out. -/
structure Shown (is is' : List Invocation) : Prop where
  skipped : ∀ i ∈ is, i.skipped = true
  same : is.map (fun i => (i.program, i.args)) = is'.map (fun i => (i.program, i.args))

/-- What is shown of two lists of commands is shown of the two put together. -/
theorem Shown.append {is js is' js' : List Invocation} (h : Shown is is') (h' : Shown js js') :
    Shown (is ++ js) (is' ++ js') where
  skipped := List.forall_mem_append.2 ⟨h.skipped, h'.skipped⟩
  same := by rw [List.map_append, List.map_append, h.same, h'.same]

/-- Artifacts without those of tools. -/
def withoutTools (as : List Artifact) : List Artifact :=
  as.filter (!·.kind.byTool)

/-- Outputs of the tools are dropped piece by piece. -/
theorem withoutTools_append (as bs : List Artifact) :
    withoutTools (as ++ bs) = withoutTools as ++ withoutTools bs :=
  List.filter_append ..

/-- Nothing is left of artifacts that all come from the tools. -/
theorem withoutTools_of_byTool {as : List Artifact} (h : ∀ a ∈ as, a.kind.byTool = true) :
    withoutTools as = [] :=
  List.filter_eq_nil_iff.2 fun a ha => by simp [h a ha]

/-- A report is that of a run, apart from what tools did. -/
structure Report.Shows (d r : Report) : Prop where
  workDir : d.workDir = r.workDir
  targetArch : d.targetArch = r.targetArch
  branches : d.branches = r.branches
  artifacts : d.artifacts = withoutTools r.artifacts
  invocations : Shown d.invocations r.invocations

namespace Compilation

variable {c : Compilation} {m : Canonical} {j k : Journal} {ls : List Location}

/-- A compilation with its tools, or without them. -/
def withDryRun (c : Compilation) (dryRun : Bool) : Compilation :=
  { c with options := { c.options with dryRun } }

/-- The tools of the backend. -/
def backendTools : List String :=
  ["opt", "llc", "clang"]

/-- The paths at which tools of the backend are looked for. -/
def probedPaths (c : Compilation) : List String :=
  match c.setting.toolchain.peanoRoot with
  | none => []
  | some root => backendTools.map fun tool => Path.join (Path.join root "bin") tool

/-- The locations on the way of all paths that a compilation itself writes or looks at. -/
def watched (c : Compilation) : List Location :=
  (c.outputPaths ++ c.probedPaths).flatMap (way c.setting.directory)

/-- No command is one that cannot be started at all, and all tools end as they should and leave
alone what the compilation itself looks at. -/
structure Quiet (c : Compilation) (j : Journal) : Prop where
  starts : ∀ i ∈ (Session.runOn (c.withDryRun true).run j).2.invocations,
    (Session.launch c.setting i.program i.args).refusal? = none
  ends : ∀ launch t, ∃ ending t', c.setting.tools launch t = (.ok ending, t') ∧
    ending.code = some 0 ∧ FileTree.Keeps c.watched t t'

/-- A dry run shows what a run does. -/
structure ShowsRun (c : Compilation) (dry real : Except CompileError Report × Journal) : Prop where
  outcome : ResultsAlike Report.Shows dry.1 real.1
  invocations : Shown dry.2.invocations real.2.invocations
  outputs : ∀ path ∈ c.outputPaths, c.held dry.2.files path = c.held real.2.files path

/-! ### Steps -/

/-- What a step of a compilation writes and looks at, and the artifacts that it gives. -/
structure ProperStep (c : Compilation) (s : Step) : Prop where
  outputs : ∀ p ∈ s.outputs, p.1.path ∈ c.outputPaths ∧ p.1.kind.byTool = false
  leaves : ∀ a ∈ s.leaves, a.kind.byTool = true
  tool : ∀ tool commands, s = .callBackend tool commands → tool ∈ backendTools

/-- A dry run and a run up to some point. -/
structure InStep (c : Compilation) (j k : Journal) : Prop where
  files : ∃ ρ, FileTree.Alike c.watched ρ j.files k.files
  invocations : Shown j.invocations k.invocations

/-- Two results of steps, where the second one may have artifacts of tools. -/
abbrev StepAlike (r r' : Except CompileError (List Artifact)) : Prop :=
  ResultsAlike (fun as bs => as = withoutTools bs) r r'

/-- Every step of a compilation is one the compiler can take. -/
theorem steps_proper (hm : m.workDir = c.workDir) : ∀ s ∈ c.steps m, c.ProperStep s := by
  intro s hs
  refine ⟨fun p hp => ?_, leaves_steps s hs, ?_⟩
  · have hmem : p ∈ c.translations m := flatten_steps_sublist.subset
      (List.mem_flatten_of_mem (List.mem_map_of_mem hs) hp)
    refine ⟨translations_paths hm ▸ List.mem_map_of_mem hmem, ?_⟩
    simp only [translations, ipuTranslations, unifiedTranslations, hostTranslations,
      xclbinTranslations, List.cons_append, List.nil_append, List.mem_cons, List.not_mem_nil,
      or_false] at hmem
    rcases hmem with rfl | rfl | rfl | rfl | rfl | rfl | rfl <;> rfl
  · rintro tool commands rfl
    rcases mem_steps hs with hs | hs | hs | hs
    · simp [ipuSteps] at hs
    · cases h : c.options.compile <;> cases h' : c.options.link <;>
        simp only [unifiedSteps, compileSteps, h, h', Bool.false_eq_true, if_true, if_false,
          List.cons_append, List.nil_append, List.append_nil, List.mem_cons, List.not_mem_nil,
          reduceCtorEq, false_or, or_false, Step.callBackend.injEq] at hs
      · rcases hs with ⟨rfl, -⟩ | ⟨rfl, -⟩ <;> simp [backendTools]
      · rcases hs with ⟨rfl, -⟩ | ⟨rfl, -⟩ | ⟨rfl, -⟩ <;> simp [backendTools]
    · simp [hostSteps] at hs
    · simp [xclbinSteps] at hs

/-- Commands that are left out are recorded. -/
theorem runOn_runCommands_dry {setting : Setting} (hdry : setting.dryRun = true) (program : String)
    (commands : List Command) (j : Journal) :
    ∃ printed, Session.runOn (Session.runCommands setting program commands) j = (.ok [], { j with
      printed
      invocations := j.invocations ++ commands.map fun command =>
        { program, args := command.args, skipped := true } }) := by
  induction commands generalizing j with
  | nil => exact ⟨j.printed, by simp [Session.runCommands_nil]⟩
  | cons command rest ih =>
      obtain ⟨printed, hfirst⟩ := Session.runOn_runChecked_dry program command.args hdry j
      obtain ⟨printed', hrest⟩ := ih { j with
        printed
        invocations := j.invocations ++ [{ program, args := command.args, skipped := true }] }
      refine ⟨printed', ?_⟩
      rw [Session.runCommands_cons, Session.runOn_bind, hfirst]
      dsimp only
      rw [Session.runOn_bind, hrest]
      simp [hdry]

/-- Commands that are run give all that they leave, and leave alone what their tools do. -/
theorem runOn_runCommands_done {setting : Setting} (hdry : setting.dryRun = false)
    (htools : ∀ launch t, ∃ ending t', setting.tools launch t = (.ok ending, t') ∧
      ending.code = some 0 ∧ FileTree.Keeps ls t t') {program : String} {commands : List Command}
    (hstart : ∀ command ∈ commands,
      (Session.launch setting program command.args).refusal? = none) (k : Journal) :
    ∃ k', Session.runOn (Session.runCommands setting program commands) k =
        (.ok (commands.flatMap (·.leaves)), k') ∧ FileTree.Keeps ls k.files k'.files ∧
      ∃ new, k'.invocations = k.invocations ++ new ∧
        new.map (fun i => (i.program, i.args)) =
          commands.map fun command => (program, command.args) := by
  induction commands generalizing k with
  | nil => exact ⟨k, rfl, Keeps.refl _ _, [], by simp, rfl⟩
  | cons command rest ih =>
      simp only [List.forall_mem_cons] at hstart
      obtain ⟨ending, t', hend, hcode, hkeeps⟩ :=
        htools (Session.launch setting program command.args) k.files
      obtain ⟨printed, complaints, hfirst⟩ :=
        Session.runOn_runChecked_done program command.args hdry hstart.1 hend hcode
      obtain ⟨k', hrest, hkeeps', new, hnew, hsame⟩ := ih hstart.2 {
        files := t'
        printed
        complaints
        invocations := k.invocations ++
          [{ program, args := command.args, elapsed := ending.elapsed }] }
      refine ⟨k', ?_, hkeeps.trans hkeeps',
        { program, args := command.args, elapsed := ending.elapsed } :: new,
        by simp [hnew], by simp [hsame]⟩
      rw [Session.runCommands_cons, Session.runOn_bind, hfirst]
      dsimp only
      rw [Session.runOn_bind, hrest]
      simp [hdry]

/-- The ways of outputs are watched. -/
theorem way_output {path : String} (hpath : path ∈ c.outputPaths) :
    way c.setting.directory path ⊆ c.watched :=
  fun _ hl => List.mem_flatMap.2 ⟨path, List.mem_append_left _ hpath, hl⟩

/-- A tool of the backend is found at the same place. -/
theorem backendTool_eq {t t' : FileTree} {ρ : FileId → FileId → Prop} {tool : String}
    (h : FileTree.Alike c.watched ρ t t') (htool : tool ∈ backendTools) :
    c.setting.toolchain.backendTool t c.setting.directory tool =
      c.setting.toolchain.backendTool t' c.setting.directory tool := by
  rw [Toolchain.backendTool, Toolchain.backendTool]
  rcases hroot : c.setting.toolchain.peanoRoot with _ | root
  · rfl
  · have hpath : Path.join (Path.join root "bin") tool ∈ c.probedPaths := by
      rw [probedPaths, hroot]
      exact List.mem_map_of_mem htool
    dsimp only
    rw [h.hasEntry_eq fun l hl => List.mem_flatMap.2 ⟨_, List.mem_append_right _ hpath, hl⟩]

/-- Commands are left out in one run as they are run in the other one. -/
theorem runCommands_inStep (h : c.InStep j k)
    (hends : ∀ launch t, ∃ ending t', c.setting.tools launch t = (.ok ending, t') ∧
      ending.code = some 0 ∧ FileTree.Keeps c.watched t t')
    {program : String} {commands : List Command}
    (hleaves : ∀ a ∈ commands.flatMap (·.leaves), a.kind.byTool = true)
    (hstart : ∀ i ∈ (Session.runOn (Session.runCommands (c.withDryRun true).toolSetting program
        commands) j).2.invocations,
      (Session.launch c.setting i.program i.args).refusal? = none) :
    let dry := Session.runOn
      (Session.runCommands (c.withDryRun true).toolSetting program commands) j
    let real := Session.runOn
      (Session.runCommands (c.withDryRun false).toolSetting program commands) k
    StepAlike dry.1 real.1 ∧ c.InStep dry.2 real.2 := by
  have hsetting : (c.withDryRun true).toolSetting.dryRun = true := rfl
  have hsetting' : (c.withDryRun false).toolSetting.dryRun = false := rfl
  obtain ⟨printed, hdry⟩ := runOn_runCommands_dry hsetting program commands j
  rw [hdry] at hstart
  obtain ⟨k', hreal, hkeeps, new, hnew, hsame⟩ := runOn_runCommands_done hsetting' hends
    (fun command hcommand => hstart _ (List.mem_append_right _ (List.mem_map_of_mem hcommand))) k
  obtain ⟨ρ, hfiles⟩ := h.files
  rw [hdry, hreal]
  refine ⟨.ok (withoutTools_of_byTool hleaves).symm, hfiles.keeps hkeeps, ?_⟩
  rw [hnew]
  refine h.invocations.append ⟨by simp, ?_⟩
  rw [hsame, List.map_map]
  rfl

/-- A step is taken in a dry run as it is taken in a run. -/
theorem exec_inStep {s : Step} (hs : c.ProperStep s) (h : c.InStep j k)
    (hends : ∀ launch t, ∃ ending t', c.setting.tools launch t = (.ok ending, t') ∧
      ending.code = some 0 ∧ FileTree.Keeps c.watched t t')
    (hstart : ∀ i ∈ (Session.runOn (s.exec (c.withDryRun true)) j).2.invocations,
      (Session.launch c.setting i.program i.args).refusal? = none) :
    let dry := Session.runOn (s.exec (c.withDryRun true)) j
    let real := Session.runOn (s.exec (c.withDryRun false)) k
    StepAlike dry.1 real.1 ∧ c.InStep dry.2 real.2 := by
  cases s with
  | «show» text =>
      obtain ⟨_, hdry⟩ := runOn_show (c := c.withDryRun true) text j
      obtain ⟨_, hreal⟩ := runOn_show (c := c.withDryRun false) text k
      rw [hdry, hreal]
      exact ⟨.ok rfl, h.files, h.invocations⟩
  | lower l p =>
      obtain ⟨_, hdry⟩ := runOn_lower (c := c.withDryRun true) l p j
      obtain ⟨_, hreal⟩ := runOn_lower (c := c.withDryRun false) l p k
      rw [hdry, hreal]
      refine ⟨?_, h.files, h.invocations⟩
      rcases (l.run p).1 with e | ⟨⟩
      · exact .error e
      · exact .ok rfl
  | emit a text =>
      obtain ⟨ρ, hfiles⟩ := h.files
      obtain ⟨hpath, hkind⟩ := hs.outputs (a, text) (List.mem_singleton_self _)
      obtain ⟨hresult, hfiles⟩ := Artifact.emit_alike hfiles (way_output hpath) text
      rw [runOn_emit, runOn_emit]
      refine ⟨?_, hfiles, h.invocations⟩
      dsimp only [withDryRun] at hresult ⊢
      rw [← hresult]
      rcases hr : (a.emit c.setting.directory text j.files).1 with e | a'
      · exact .error e
      · obtain rfl := Artifact.emit_eq_ok hr
        exact .ok (by simp [withoutTools, hkind])
  | emitPair a text b text' =>
      obtain ⟨ρ, hfiles⟩ := h.files
      obtain ⟨hpath, hkind⟩ := hs.outputs (a, text) (by simp [Step.outputs])
      obtain ⟨hpath', hkind'⟩ := hs.outputs (b, text') (by simp [Step.outputs])
      obtain ⟨hresult, hfiles⟩ :=
        Artifact.emitPair_alike hfiles (way_output hpath) (way_output hpath') text text'
      rw [runOn_emitPair, runOn_emitPair]
      refine ⟨?_, hfiles, h.invocations⟩
      dsimp only [withDryRun] at hresult ⊢
      rw [← hresult]
      rcases hr : (a.emitPair c.setting.directory text b text' j.files).1 with e | ab
      · exact .error e
      · obtain rfl := Artifact.emitPair_eq_ok hr
        exact .ok (by simp [withoutTools, hkind, hkind'])
  | call program commands => exact runCommands_inStep h hends hs.leaves hstart
  | callBackend tool commands =>
      obtain ⟨ρ, hfiles⟩ := h.files
      have htool := backendTool_eq hfiles (hs.tool tool commands rfl)
      rw [runOn_callBackend] at hstart ⊢
      rw [runOn_callBackend]
      dsimp only [withDryRun] at htool hstart ⊢
      rw [← htool]
      exact runCommands_inStep h hends hs.leaves hstart

/-- Steps only add commands. -/
theorem invocations_accumulate :
    Session.Accumulates fun j k => j.invocations ⊆ k.invocations :=
  ⟨fun _ _ _ => List.Subset.trans, fun _ _ _ => List.Subset.refl _⟩

/-- Running steps only adds invocations. -/
theorem execAll_invocations (steps : List Step) :
    Session.Within (fun j k => j.invocations ⊆ k.invocations) (c.execAll steps) := by
  have hR := invocations_accumulate
  have hcommands (program : String) (commands : List Command) :
      Session.Within _ (Session.runCommands c.toolSetting program commands) :=
    .runCommands hR program commands (fun _ _ => List.Subset.refl _)
      fun _ _ => List.subset_append_left _ _
  refine .bind hR (.mapM hR (fun s => ?_) steps) fun _ => .of_eq hR fun _ => rfl
  cases s with
  | «show» text =>
      intro j
      obtain ⟨_, h⟩ := runOn_show (c := c) text j
      rw [h]
      exact List.Subset.refl _
  | lower l p =>
      intro j
      obtain ⟨_, h⟩ := runOn_lower (c := c) l p j
      rw [h]
      exact List.Subset.refl _
  | emit a text =>
      intro j
      rw [runOn_emit]
      exact List.Subset.refl _
  | emitPair a text b text' =>
      intro j
      rw [runOn_emitPair]
      exact List.Subset.refl _
  | call program commands => exact hcommands program commands
  | callBackend tool commands =>
      intro j
      rw [runOn_callBackend]
      exact hcommands _ commands j

/-- Steps are taken in a dry run as they are taken in a run. -/
theorem execAll_inStep {steps : List Step} (hs : ∀ s ∈ steps, c.ProperStep s) (h : c.InStep j k)
    (hends : ∀ launch t, ∃ ending t', c.setting.tools launch t = (.ok ending, t') ∧
      ending.code = some 0 ∧ FileTree.Keeps c.watched t t')
    (hstart : ∀ i ∈ (Session.runOn ((c.withDryRun true).execAll steps) j).2.invocations,
      (Session.launch c.setting i.program i.args).refusal? = none) :
    let dry := Session.runOn ((c.withDryRun true).execAll steps) j
    let real := Session.runOn ((c.withDryRun false).execAll steps) k
    StepAlike dry.1 real.1 ∧ c.InStep dry.2 real.2 := by
  induction steps generalizing j k with
  | nil => exact ⟨.ok rfl, h⟩
  | cons s rest ih =>
      rw [List.forall_mem_cons] at hs
      simp only [execAll_cons, Session.runOn_bind] at hstart ⊢
      have hfirst := exec_inStep (s := s) hs.1 h hends
      rcases hdry : Session.runOn (s.exec (c.withDryRun true)) j with ⟨r, j₁⟩
      rcases hreal : Session.runOn (s.exec (c.withDryRun false)) k with ⟨r', k₁⟩
      simp only [hdry, hreal] at hfirst hstart ⊢
      cases r with
      | error e =>
          obtain ⟨hresult, hstep⟩ := hfirst hstart
          cases hresult
          exact ⟨.error e, hstep⟩
      | ok as =>
          have hgrow := execAll_invocations (c := c.withDryRun true) rest j₁
          have hrest := ih (j := j₁) (k := k₁) hs.2
          rcases hdry' : Session.runOn ((c.withDryRun true).execAll rest) j₁ with ⟨q, j₂⟩
          simp only [hdry'] at hgrow hstart hrest ⊢
          have hstart' : ∀ i ∈ j₂.invocations,
              (Session.launch c.setting i.program i.args).refusal? = none := by
            cases q <;> exact hstart
          obtain ⟨hresult, hstep⟩ := hfirst fun i hi => hstart' i (hgrow hi)
          obtain ⟨hresult', hstep'⟩ := hrest hstep hstart'
          cases hresult with
          | ok has =>
              rcases hreal' : Session.runOn ((c.withDryRun false).execAll rest) k₁ with ⟨q', k₂⟩
              simp only [hreal'] at hresult' hstep' ⊢
              cases hresult' with
              | error e => exact ⟨.error e, hstep'⟩
              | ok hbs => exact ⟨.ok (by rw [has, hbs, withoutTools_append]), hstep'⟩

/-- A dry run shows what a run does: it ends in the same way with the same commands and the same
outputs, and only the artifacts of tools are not there. -/
theorem dryRun_showsRun {t : FileTree} (ht : t.Sound) (hquiet : c.Quiet { files := t }) :
    c.ShowsRun (Session.runOn (c.withDryRun true).run { files := t })
      (Session.runOn (c.withDryRun false).run { files := t }) := by
  have hstart := hquiet.starts
  have hprepare (dryRun : Bool) : (c.withDryRun dryRun).prepare = c.prepare := rfl
  have hsteps (dryRun : Bool) (m : Canonical) : (c.withDryRun dryRun).steps m = c.steps m := rfl
  obtain ⟨hfiles, hinvocations⟩ := prepare_spec c { files := t }
  simp only [run_eq, hprepare, hsteps, Session.runOn_bind] at hstart ⊢
  rcases hrun : Session.runOn c.prepare { files := t } with ⟨r, i⟩
  simp only [hrun] at hstart hfiles hinvocations ⊢
  have hinit : c.InStep i i :=
    ⟨⟨_, (hfiles.sound ht).alike _⟩, by rw [hinvocations]; exact ⟨by simp, rfl⟩⟩
  have houtputs {j k : Journal} (h : c.InStep j k) (path) (hpath : path ∈ c.outputPaths) :
      c.held j.files path = c.held k.files path := by
    obtain ⟨ρ, hfiles⟩ := h.files
    exact hfiles.bytesAt?_eq (way_output hpath destination_mem_way)
  cases r with
  | error e => exact ⟨.error e, hinit.invocations, houtputs hinit⟩
  | ok m =>
      have hall := execAll_inStep (steps_proper (prepare_workDir hrun)) hinit hquiet.ends
      rcases hdry : Session.runOn ((c.withDryRun true).execAll (c.steps m)) i with ⟨q, j⟩
      rcases hreal : Session.runOn ((c.withDryRun false).execAll (c.steps m)) i with ⟨q', k⟩
      simp only [hdry, hreal] at hall hstart ⊢
      obtain ⟨hresult, hstep⟩ := hall (by cases q <;> exact hstart)
      cases hresult with
      | error e => exact ⟨.error e, hstep.invocations, houtputs hstep⟩
      | ok has =>
          exact ⟨.ok ⟨rfl, rfl, rfl, has, hstep.invocations⟩, hstep.invocations, houtputs hstep⟩

/-- A compilation in which every tool leaves a file of its own. -/
def loggingTools : Compilation where
  options := { input := "a.mlir", unified := true }
  setting := { tools := fun _ t => (.ok { code := some 0 }, (t.addFile ["log"] [] false).2) }

/-- A dry run shows the tools that a core takes. -/
theorem dryRun_showsRun_loggingTools :
    (oneCoreFiles.Sound ∧ loggingTools.Quiet { files := oneCoreFiles }) ∧
    loggingTools.ShowsRun
      (Session.runOn (loggingTools.withDryRun true).run { files := oneCoreFiles })
      (Session.runOn (loggingTools.withDryRun false).run { files := oneCoreFiles }) ∧
    (Session.runOn (loggingTools.withDryRun true).run { files := oneCoreFiles }).1.isOk = true ∧
    (Session.runOn (loggingTools.withDryRun true).run { files := oneCoreFiles }).2.invocations.map
      (·.program) = ["opt", "llc", "clang"] := by
  have hsound : oneCoreFiles.Sound := by
    intro l id x hx
    by_cases hl : l = []
    · simp [hl] at hx
    · by_cases hl' : l = ["a.mlir"]
      · subst hl'
        cases hx
        decide
      · simp [node?, hl, oneCoreFiles, List.lookup_cons, beq_false_of_ne hl'] at hx
  have hrun : let dry := Session.runOn (loggingTools.withDryRun true).run { files := oneCoreFiles }
      dry.1.isOk = true ∧ dry.2.invocations.map (·.program) = ["opt", "llc", "clang"] ∧
      ∀ i ∈ dry.2.invocations,
        (Session.launch loggingTools.setting i.program i.args).refusal? = none := by
    decide +kernel
  have hlog : ["log"] ∉ loggingTools.watched := by decide +kernel
  have hquiet : loggingTools.Quiet { files := oneCoreFiles } := by
    refine ⟨hrun.2.2, fun launch t => ⟨_, _, rfl, rfl, fun l hl => ?_⟩⟩
    have hne : l ≠ ["log"] := fun h => hlog (h ▸ hl)
    refine ⟨?_, fun id x bytes _ hb => ?_⟩
    · rw [addFile, node?_put _ _ _ _ (by simp), if_neg hne]
      rfl
    · have hid := (Array.getElem?_eq_some_iff.1 hb).1
      simp [addFile, Array.getElem?_push, Nat.ne_of_lt hid, hb]
  exact ⟨⟨hsound, hquiet⟩, dryRun_showsRun hsound hquiet, hrun.1, hrun.2.1⟩

end Compilation

end TileFlow
