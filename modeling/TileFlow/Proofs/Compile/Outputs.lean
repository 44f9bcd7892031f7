import Mathlib.Data.List.Flatten
import Mathlib.Data.List.Nodup
import TileFlow.Proofs.Compile.Plan
import TileFlow.Proofs.Files.Output

/-!
# What a run leaves behind

Each output that a compilation writes itself is written in one step, and no other step touches it.
Whatever happens, the file is as it was before the run, or has the whole text of its translation,
or is not there. The two sources of the host are written in one step, and stay together.

## Main definitions

* `Step.outputs`, `Step.opened`: what a step translates, and the paths that it opens.
* `Delivered`: translations are on disk as a whole or not at all.
* `Compilation.translations`: all that a compilation translates a canonical program to.
* `Compilation.WholeOutputs`: no partial translation is left behind.

## Main results

* `Delivered.append`: steps one after the other.
* `Compilation.execAll_delivered`: the outputs of steps, however far they get.
* `Compilation.run_wholeOutputs`: the outputs of a run.
-/

namespace TileFlow

open FileTree

/-- Whether artifacts of a kind are left by tools, and not written by the compilation itself. -/
def ArtifactKind.byTool : ArtifactKind → Bool
  | optimizedLlvmIr | object | coreElf | xclbin => true
  | llvmIr | ipuInstructions | hostGlue | deviceConfig | kernelMetadata => false

/-- An artifact with its text, if there is one. -/
abbrev Translation : Type := Artifact × Except CompileError String

/-- A translation is on disk as a whole. -/
def Translation.OnDisk (directory : Location) (p : Translation) (t : FileTree) : Prop :=
  ∃ s, p.2 = .ok s ∧ t.bytesAt? (p.1.location directory) = some (.ofText s)

namespace Step

/-- What a step translates. -/
def outputs : Step → List Translation
  | emit a text => [(a, text)]
  | emitPair a text b text' => [(a, text), (b, text')]
  | _ => []

/-- The artifacts that the tools of a step leave. -/
def leaves : Step → List Artifact
  | call _ commands | callBackend _ commands => commands.flatMap (·.leaves)
  | _ => []

/-- The paths that a step opens. -/
def opened (directory : Location) (t : FileTree) : Step → List String
  | emit a _ => a.opened directory t
  | emitPair a text b _ => a.openedPair directory text b t
  | _ => []

end Step

/-- Of groups of translations, those that were opened are on disk as a whole or not at all, groups
stay together, and all else is as before. -/
structure Delivered (directory : Location) (ls : List Location) (groups : List (List Translation))
    (opened : List String) (kept : List Artifact) (t t' : FileTree) : Prop where
  free : t'.Free ls
  others : ∀ l ∈ ls, (∀ p ∈ groups.flatten, p.1.location directory ≠ l) →
    t'.bytesAt? l = t.bytesAt? l
  named : ∀ path ∈ opened, ∃ p ∈ groups.flatten, p.1.path = path
  unopened : ∀ p ∈ groups.flatten, p.1.path ∉ opened →
    t'.bytesAt? (p.1.location directory) = t.bytesAt? (p.1.location directory)
  whole : ∀ p ∈ groups.flatten, p.1.path ∈ opened →
    t'.bytesAt? (p.1.location directory) = none ∨ p.OnDisk directory t'
  together : ∀ g ∈ groups, ∀ p ∈ g, ∀ q ∈ g, p.1.path ∈ opened → p.OnDisk directory t' →
    q.1.path ∈ opened ∧ q.OnDisk directory t'
  kept : ∀ a ∈ kept, a.kind.byTool = false →
    ∃ s, (a, .ok s) ∈ groups.flatten ∧ Translation.OnDisk directory (a, .ok s) t'

namespace Delivered

variable {directory : Location} {ls : List Location} {groups groups' : List (List Translation)}
  {opened opened' : List String} {kept kept' : List Artifact} {t t' t'' : FileTree}

/-- Nothing was opened, and nothing has changed. -/
theorem none (hls : ∀ p ∈ groups.flatten, p.1.location directory ∈ ls) (hf : t'.Free ls)
    (hsame : ∀ l ∈ ls, t'.bytesAt? l = t.bytesAt? l) (hkept : ∀ a ∈ kept, a.kind.byTool = true) :
    Delivered directory ls groups [] kept t t' where
  free := hf
  others l hl _ := hsame l hl
  named := by simp
  unopened p hp _ := hsame _ (hls p hp)
  whole := by simp
  together := by simp
  kept a ha hkind := by simp [hkept a ha] at hkind

/-- What is delivered first stays when something else is delivered. -/
theorem append (h : Delivered directory ls groups opened kept t t')
    (h' : Delivered directory ls groups' opened' kept' t' t'')
    (hls : ∀ p ∈ groups.flatten ++ groups'.flatten, p.1.location directory ∈ ls)
    (hapart : ∀ p ∈ groups.flatten, ∀ q ∈ groups'.flatten,
      p.1.location directory ≠ q.1.location directory) :
    Delivered directory ls (groups ++ groups') (opened ++ opened') (kept ++ kept') t t'' := by
  have hfirst (p) (hp : p ∈ groups.flatten) : t''.bytesAt? (p.1.location directory) =
      t'.bytesAt? (p.1.location directory) :=
    h'.others _ (hls p (List.mem_append_left _ hp)) fun q hq => (hapart p hp q hq).symm
  have hfirst' (p) (hp : p ∈ groups.flatten) : p.1.path ∉ opened' := fun hmem => by
    obtain ⟨q, hq, hqp⟩ := h'.named _ hmem
    exact hapart p hp q hq (by rw [Artifact.location, Artifact.location, hqp])
  have hsecond (q) (hq : q ∈ groups'.flatten) : q.1.path ∉ opened := fun hmem => by
    obtain ⟨p, hp, hpq⟩ := h.named _ hmem
    exact hapart p hp q hq (by rw [Artifact.location, Artifact.location, hpq])
  have hdisk (p : Translation) (hp : p ∈ groups.flatten) :
      p.OnDisk directory t'' ↔ p.OnDisk directory t' := by
    rw [Translation.OnDisk, Translation.OnDisk, hfirst p hp]
  refine ⟨h'.free, fun l hl hne => ?_, fun path hpath => ?_, fun p hp hnot => ?_,
    fun p hp hmem => ?_, fun g hg p hp q hq hmem hon => ?_, fun a ha hkind => ?_⟩
  · simp only [List.flatten_append, List.mem_append] at hne
    rw [h'.others l hl fun p hp => hne p (.inr hp), h.others l hl fun p hp => hne p (.inl hp)]
  · simp only [List.flatten_append, List.mem_append]
    rcases List.mem_append.1 hpath with hpath | hpath
    · obtain ⟨p, hp, hname⟩ := h.named path hpath
      exact ⟨p, .inl hp, hname⟩
    · obtain ⟨p, hp, hname⟩ := h'.named path hpath
      exact ⟨p, .inr hp, hname⟩
  · simp only [List.mem_append, not_or] at hnot
    rcases List.mem_append.1 (List.flatten_append ▸ hp) with hp | hp
    · rw [hfirst p hp, h.unopened p hp hnot.1]
    · rw [h'.unopened p hp hnot.2, h.others _ (hls p (List.mem_append_right _ hp)) fun q hq =>
        hapart q hq p hp]
  · rcases List.mem_append.1 (List.flatten_append ▸ hp) with hp | hp
    · rw [hfirst p hp, hdisk p hp]
      exact h.whole p hp ((List.mem_append.1 hmem).resolve_right (hfirst' p hp))
    · exact h'.whole p hp ((List.mem_append.1 hmem).resolve_left (hsecond p hp))
  · rcases List.mem_append.1 hg with hg | hg
    · have hp' := List.mem_flatten_of_mem hg hp
      have hq' := List.mem_flatten_of_mem hg hq
      have hmem' := (List.mem_append.1 hmem).resolve_right (hfirst' p hp')
      obtain ⟨hqmem, hqon⟩ := h.together g hg p hp q hq hmem' ((hdisk p hp').1 hon)
      exact ⟨List.mem_append_left _ hqmem, (hdisk q hq').2 hqon⟩
    · have hmem' := (List.mem_append.1 hmem).resolve_left
        (hsecond p (List.mem_flatten_of_mem hg hp))
      exact (h'.together g hg p hp q hq hmem' hon).imp_left (List.mem_append_right _)
  · rcases List.mem_append.1 ha with ha | ha
    · obtain ⟨s, hmem, hon⟩ := h.kept a ha hkind
      refine ⟨s, ?_, (hdisk _ hmem).2 hon⟩
      rw [List.flatten_append]
      exact List.mem_append_left _ hmem
    · obtain ⟨s, hmem, hon⟩ := h'.kept a ha hkind
      refine ⟨s, ?_, hon⟩
      rw [List.flatten_append]
      exact List.mem_append_right _ hmem

/-- One artifact. -/
theorem emit {a : Artifact} (hf : t.Free ls) (hl : a.location directory ∈ ls)
    (text : Except CompileError String) :
    ∃ r t', a.emit directory text t = (r, t') ∧ (r = .ok a ∨ ∃ e, r = .error e) ∧
      Delivered directory ls [[(a, text)]] (a.opened directory t)
        (match r with | .ok a => [a] | .error _ => []) t t' := by
  obtain ⟨r, t', he, hf', hothers, hend⟩ := Artifact.emit_spec hf hl text
  have hothers' (l) (hl : l ∈ ls) (hne : ∀ p ∈ [(a, text)], p.1.location directory ≠ l) :
      t'.bytesAt? l = t.bytesAt? l := hothers l hl (hne _ (List.mem_singleton_self _)).symm
  rcases hend with ⟨hopened, ⟨e, rfl⟩, rfl⟩ | ⟨hopened, ⟨e, rfl, hgone⟩ | ⟨s, rfl, rfl, hon⟩⟩
  · refine ⟨_, t', he, .inr ⟨e, rfl⟩, ?_⟩
    rw [hopened]
    exact ⟨hf', hothers', by simp, by simp, by simp, by simp, by simp⟩
  · refine ⟨_, t', he, .inr ⟨e, rfl⟩, ?_⟩
    rw [hopened]
    exact ⟨hf', hothers', by simp, by simp, by simp [hgone],
      by simp [Translation.OnDisk, hgone], by simp⟩
  · refine ⟨_, t', he, .inl rfl, ?_⟩
    rw [hopened]
    exact ⟨hf', hothers', by simp, by simp, by simp [Translation.OnDisk, hon],
      by simp [Translation.OnDisk, hon], by simp [Translation.OnDisk, hon]⟩

/-- Two artifacts that stay together. -/
theorem emitPair {a b : Artifact} (hf : t.Free ls) (ha : a.location directory ∈ ls)
    (hb : b.location directory ∈ ls) (hne : a.location directory ≠ b.location directory)
    (text text' : Except CompileError String) :
    ∃ r t', a.emitPair directory text b text' t = (r, t') ∧
      (r = .ok (a, b) ∨ ∃ e, r = .error e) ∧
      Delivered directory ls [[(a, text), (b, text')]] (a.openedPair directory text b t)
        (match r with | .ok (a, b) => [a, b] | .error _ => []) t t' := by
  obtain ⟨r, t', he, hf', hothers, hend⟩ := Artifact.emitPair_spec hf ha hb hne text text'
  have hpath : b.path ≠ a.path := fun h => hne (by rw [Artifact.location, Artifact.location, h])
  have hothers' (l) (hl : l ∈ ls)
      (hne : ∀ p ∈ [[(a, text), (b, text')]].flatten, p.1.location directory ≠ l) :
      t'.bytesAt? l = t.bytesAt? l :=
    hothers l hl (hne (a, text) (by simp)).symm (hne (b, text') (by simp)).symm
  rcases hend with ⟨hopened, ⟨e, rfl⟩, rfl⟩ | ⟨hopened, ⟨e, rfl⟩, hgone, hsame⟩ |
    ⟨hopened, ⟨e, rfl, hgone, hgone'⟩ | ⟨s, s', rfl, rfl, rfl, hon, hon'⟩⟩
  · refine ⟨_, t', he, .inr ⟨e, rfl⟩, ?_⟩
    rw [hopened]
    exact ⟨hf', hothers', by simp, by simp, by simp, by simp, by simp⟩
  · refine ⟨_, t', he, .inr ⟨e, rfl⟩, ?_⟩
    rw [hopened]
    exact ⟨hf', hothers', by simp, by simp [hpath, hsame], by simp [hpath, hgone],
      by simp [-Prod.forall, Translation.OnDisk, hpath, hgone], by simp⟩
  · refine ⟨_, t', he, .inr ⟨e, rfl⟩, ?_⟩
    rw [hopened]
    exact ⟨hf', hothers', by simp, by simp, by simp [hgone, hgone'],
      by simp [-Prod.forall, Translation.OnDisk, hgone, hgone'], by simp⟩
  · refine ⟨_, t', he, .inl rfl, ?_⟩
    rw [hopened]
    exact ⟨hf', hothers', by simp, by simp, by simp [Translation.OnDisk, hon, hon'],
      by simp [-Prod.forall, Translation.OnDisk, hon, hon'],
      by simp [Translation.OnDisk, hon, hon']⟩

end Delivered

/-! ### Steps -/

variable {c : Compilation} {j k : Journal} {ls : List Location}

/-- Locations that are left alone. -/
theorem keeps_accumulates (ls : List Location) :
    Session.Accumulates fun j k => FileTree.Keeps ls j.files k.files :=
  ⟨fun _ _ _ => Keeps.trans, fun _ _ _ => Keeps.refl _ _⟩

/-- Commands give artifacts that they leave. -/
theorem Session.runCommands_leaves {setting : Setting} {program : String}
    {commands : List Command} {as : List Artifact}
    (hrun : runOn (runCommands setting program commands) j = (.ok as, k)) :
    ∀ a ∈ as, a ∈ commands.flatMap (·.leaves) := by
  induction commands generalizing j as with
  | nil =>
      cases hrun
      simp
  | cons command rest ih =>
      rw [runCommands_cons] at hrun
      obtain ⟨_, _, -, hrun⟩ := bind_ok.1 hrun
      obtain ⟨left, _, hrest, hrun⟩ := bind_ok.1 hrun
      cases hrun
      intro a ha
      rw [List.flatMap_cons, List.mem_append]
      refine (List.mem_append.1 ha).imp (fun ha => ?_) (ih hrest a)
      split at ha
      · simp at ha
      · exact ha

namespace Compilation

/-- The translations of steps, by steps. -/
def groups (steps : List Step) : List (List Translation) :=
  steps.map Step.outputs

@[simp] theorem groups_nil : groups [] = [] := rfl

@[simp] theorem groups_cons (s : Step) (rest : List Step) :
    groups (s :: rest) = s.outputs :: groups rest := rfl

/-- The paths that steps open. -/
def openedBy (c : Compilation) : List Step → Journal → List String
  | [], _ => []
  | s :: rest, j =>
    s.opened c.setting.directory j.files ++
      match Session.runOn (s.exec c) j with
      | (.ok _, k) => c.openedBy rest k
      | (.error _, _) => []

/-- The artifacts of the steps that are taken to their ends. -/
def keptBy (c : Compilation) : List Step → Journal → List Artifact
  | [], _ => []
  | s :: rest, j =>
    match Session.runOn (s.exec c) j with
    | (.ok artifacts, k) => artifacts ++ c.keptBy rest k
    | (.error _, _) => []

/-- A step delivers its translations. -/
theorem exec_delivered {s : Step} {r : Except CompileError (List Artifact)}
    (hrun : Session.runOn (s.exec c) j = (r, k)) (hf : j.files.Free ls)
    (htools : ∀ launch t, FileTree.Keeps ls t (c.setting.tools launch t).2)
    (hls : ∀ p ∈ s.outputs, p.1.location c.setting.directory ∈ ls)
    (hapart : (s.outputs.map (·.1.location c.setting.directory)).Nodup)
    (hleaves : ∀ a ∈ s.leaves, a.kind.byTool = true) :
    Delivered c.setting.directory ls [s.outputs] (s.opened c.setting.directory j.files)
      (match r with | .ok artifacts => artifacts | .error _ => []) j.files k.files := by
  have hcommands {program commands}
      (hrun : Session.runOn (Session.runCommands c.toolSetting program commands) j = (r, k))
      (hleaves : ∀ a ∈ commands.flatMap (·.leaves), a.kind.byTool = true) :
      Delivered c.setting.directory ls [[]] []
        (match r with | .ok artifacts => artifacts | .error _ => []) j.files k.files := by
    have hwithin : Session.Within _ (Session.runCommands c.toolSetting program commands) :=
      .runCommands (keeps_accumulates ls) program commands
        (fun j launch => htools launch j.files) fun _ _ => Keeps.refl _ _
    have hkeeps := hwithin j
    rw [hrun] at hkeeps
    refine .none (by simp) (hkeeps.free hf) (fun l hl => hkeeps.bytesAt? hf hl) fun a ha =>
      hleaves a ?_
    cases r with
    | error e => simp at ha
    | ok as => exact Session.runCommands_leaves hrun a ha
  cases s with
  | «show» text =>
      obtain ⟨printed, h⟩ := runOn_show (c := c) text j
      obtain ⟨rfl, rfl⟩ := Prod.mk.inj (h.symm.trans hrun)
      exact .none (by simpa using hls) hf (fun _ _ => rfl) (by simp)
  | lower l p =>
      obtain ⟨printed, h⟩ := runOn_lower (c := c) l p j
      obtain ⟨rfl, rfl⟩ := Prod.mk.inj (h.symm.trans hrun)
      refine .none (by simpa using hls) hf (fun _ _ => rfl) ?_
      rcases (l.run p).1 with e | ⟨⟩ <;> simp [Except.map]
  | emit a text =>
      obtain ⟨r', t', he, hr, hd⟩ := Delivered.emit hf (hls _ (List.mem_singleton_self _)) text
      rw [runOn_emit, he] at hrun
      rcases hr with rfl | ⟨e, rfl⟩ <;> cases hrun <;> exact hd
  | emitPair a text b text' =>
      obtain ⟨r', t', he, hr, hd⟩ := Delivered.emitPair hf (hls (a, text) (by simp [Step.outputs]))
        (hls (b, text') (by simp [Step.outputs])) (by simpa [Step.outputs] using hapart) text text'
      rw [runOn_emitPair, he] at hrun
      rcases hr with rfl | ⟨e, rfl⟩ <;> cases hrun <;> exact hd
  | call program commands => exact hcommands hrun hleaves
  | callBackend tool commands =>
      rw [runOn_callBackend] at hrun
      exact hcommands hrun hleaves

/-- Steps deliver their translations, however far they get. -/
theorem execAll_delivered {steps : List Step}
    (htools : ∀ launch t, FileTree.Keeps ls t (c.setting.tools launch t).2)
    (hls : ∀ p ∈ (groups steps).flatten, p.1.location c.setting.directory ∈ ls)
    (hapart : ((groups steps).flatten.map (·.1.location c.setting.directory)).Nodup)
    (hleaves : ∀ s ∈ steps, ∀ a ∈ s.leaves, a.kind.byTool = true)
    {r : Except CompileError (List Artifact)}
    (hrun : Session.runOn (c.execAll steps) j = (r, k)) (hf : j.files.Free ls) :
    Delivered c.setting.directory ls (groups steps) (c.openedBy steps j) (c.keptBy steps j)
        j.files k.files ∧
      ∀ as, r = .ok as → as = c.keptBy steps j := by
  induction steps generalizing j k r with
  | nil =>
      cases hrun
      exact ⟨.none (by simp) hf (fun _ _ => rfl) (by simp [keptBy]), by simp [keptBy, eq_comm]⟩
  | cons s rest ih =>
      simp only [groups_cons, List.flatten_cons, List.forall_mem_append, List.map_append,
        List.forall_mem_cons] at hls hapart hleaves
      have hdisjoint (p) (hp : p ∈ [s.outputs].flatten) (q) (hq : q ∈ (groups rest).flatten) :
          p.1.location c.setting.directory ≠ q.1.location c.setting.directory := fun h => by
        simp only [List.flatten_singleton] at hp
        exact List.disjoint_of_nodup_append hapart (List.mem_map_of_mem hp)
          (h ▸ List.mem_map_of_mem hq)
      have hall : ∀ p ∈ [s.outputs].flatten ++ (groups rest).flatten,
          p.1.location c.setting.directory ∈ ls := by
        simpa only [List.forall_mem_append, List.flatten_singleton] using hls
      rw [execAll_cons, Session.runOn_bind] at hrun
      rw [openedBy, keptBy]
      rcases hs : Session.runOn (s.exec c) j with ⟨e | as, i⟩ <;> rw [hs] at hrun
      · have hfirst := exec_delivered hs hf htools hls.1 hapart.of_append_left hleaves.1
        cases hrun
        refine ⟨?_, by simp⟩
        simpa using
          hfirst.append (.none hls.2 hfirst.free (fun _ _ => rfl) (by simp)) hall hdisjoint
      · have hfirst := exec_delivered hs hf htools hls.1 hapart.of_append_left hleaves.1
        dsimp only at hrun
        rw [Session.runOn_bind] at hrun
        rcases hrest : Session.runOn (c.execAll rest) i with ⟨e | as', i'⟩ <;> rw [hrest] at hrun
        · obtain ⟨hothers, -⟩ := ih hls.2 hapart.of_append_right hleaves.2 hrest hfirst.free
          cases hrun
          exact ⟨hfirst.append hothers hall hdisjoint, by simp⟩
        · obtain ⟨hothers, hkept⟩ := ih hls.2 hapart.of_append_right hleaves.2 hrest hfirst.free
          cases hrun
          refine ⟨hfirst.append hothers hall hdisjoint, ?_⟩
          rintro _ ⟨⟩
          rw [hkept as' rfl]

/-! ### The steps of a run -/

variable {m : Canonical}

/-- The translation of the instruction stream. -/
def ipuTranslations (c : Compilation) (m : Canonical) : List Translation :=
  [(⟨.ipuInstructions, Canonical.output m c.options.ipuInstsName⟩,
    (Pipeline.ipu.result m.program).instructionWords.map renderWords)]

/-- The translation of the cores. -/
def unifiedTranslations (m : Canonical) : List Translation :=
  [(⟨.llvmIr, Canonical.output m "input.ll"⟩, (Pipeline.unified.result m.program).backendText)]

/-- The translations of the host. -/
def hostTranslations (m : Canonical) : List Translation :=
  [(⟨.hostGlue, Canonical.output m "aie_inc.cpp"⟩, (Pipeline.host.result m.program).hostGlue),
    (⟨.deviceConfig, Canonical.output m "aie_control.cpp"⟩,
      (Pipeline.host.result m.program).deviceConfig)]

/-- The translations of the package. -/
def xclbinTranslations (c : Compilation) (m : Canonical) : List Translation :=
  let spec := c.kernelSpec m.program
  [(⟨.kernelMetadata, Canonical.output m "kernels.json"⟩, .ok (c.setting.writeJson spec.kernels)),
    (⟨.kernelMetadata, Canonical.output m "mem_topology.json"⟩,
      .ok (c.setting.writeJson memoryTopology)),
    (⟨.kernelMetadata, Canonical.output m "aie_partition.json"⟩,
      .ok (c.setting.writeJson (spec.partition (Canonical.output m "aie_control.cpp"))))]

/-- All that a canonical program can be translated to. -/
def translations (c : Compilation) (m : Canonical) : List Translation :=
  c.ipuTranslations m ++ unifiedTranslations m ++ hostTranslations m ++ c.xclbinTranslations m

/-- A step belongs to one of the four branches. -/
theorem mem_steps {s : Step} (hs : s ∈ c.steps m) : s ∈ c.ipuSteps m ∨ s ∈ c.unifiedSteps m ∨
    s ∈ c.hostSteps m ∨ s ∈ c.xclbinSteps m := by
  have hif {asked : Bool} {branch : Branch} {steps : List Step} {b : Branch × List Step}
      (hb : b ∈ planIf asked branch steps) : b.2 = steps := by
    cases asked
    · simp [planIf] at hb
    · simp only [planIf, if_true, List.mem_singleton] at hb
      rw [hb]
  obtain ⟨b, hb, hs⟩ := List.mem_flatMap.1 hs
  rw [plan] at hb
  split at hb
  · exact .inl (hif hb ▸ hs)
  · simp only [List.mem_append] at hb
    rcases hb with ((hb | hb) | hb) | hb
    · exact .inl (hif hb ▸ hs)
    · exact .inr (.inl (hif hb ▸ hs))
    · exact .inr (.inr (.inl (hif hb ▸ hs)))
    · exact .inr (.inr (.inr (hif hb ▸ hs)))

/-- The outputs of two lists of steps are those of the first, then those of the second. -/
theorem groups_append (l l' : List Step) : groups (l ++ l') = groups l ++ groups l' :=
  List.map_append

/-- The instruction branch writes its translations. -/
theorem flatten_ipuSteps : (groups (c.ipuSteps m)).flatten = c.ipuTranslations m := rfl

/-- The branch of the unified function writes its translations. -/
theorem flatten_unifiedSteps :
    (groups (c.unifiedSteps m)).flatten = unifiedTranslations m := by
  have hcompile : (groups (c.compileSteps m)).flatten = [] := by
    cases h : c.options.link <;> simp [compileSteps, h, Step.outputs]
  cases h : c.options.compile <;>
    simp [unifiedSteps, h, Step.outputs, unifiedTranslations, hcompile]

/-- The two sources of the host are written in one step. -/
theorem groups_hostSteps : groups (c.hostSteps m) = [] :: [] :: hostTranslations m ::
    if c.options.compileHost && !c.options.hostArgs.isEmpty then [[]] else [] := by
  rw [hostSteps, groups_append]
  split <;> rfl

/-- The host branch writes its translations. -/
theorem flatten_hostSteps : (groups (c.hostSteps m)).flatten = hostTranslations m := by
  rw [groups_hostSteps]
  split <;> simp

/-- The package branch writes its translations. -/
theorem flatten_xclbinSteps : (groups (c.xclbinSteps m)).flatten = c.xclbinTranslations m := rfl

/-- The steps of a run translate each artifact at most once. -/
theorem flatten_steps_sublist : (groups (c.steps m)).flatten.Sublist (c.translations m) := by
  have hif (asked : Bool) (branch : Branch) (steps : List Step) :
      (groups ((planIf asked branch steps).flatMap (·.2))).flatten.Sublist
        (groups steps).flatten := by
    cases asked <;> simp [planIf]
  have htranslations : c.translations m = (groups (c.ipuSteps m)).flatten ++
      (groups (c.unifiedSteps m)).flatten ++ (groups (c.hostSteps m)).flatten ++
      (groups (c.xclbinSteps m)).flatten := by
    rw [flatten_ipuSteps, flatten_unifiedSteps, flatten_hostSteps, flatten_xclbinSteps]
    rfl
  rw [htranslations, steps, plan]
  split
  · refine (hif _ _ _).trans ?_
    simp only [List.append_assoc]
    exact List.sublist_append_left _ _
  · simp only [List.flatMap_append, groups_append, List.flatten_append]
    exact (((hif _ _ _).append (hif _ _ _)).append (hif _ _ _)).append (hif _ _ _)

/-- Tools leave artifacts of their own kinds. -/
theorem leaves_steps : ∀ s ∈ c.steps m, ∀ a ∈ s.leaves, a.kind.byTool = true := by
  have hlink : ∀ a ∈ (Step.callBackend "clang" (m.program.coreSymbols.map (linkCommand m))).leaves,
      a.kind.byTool = true := by
    intro a ha
    obtain ⟨entry, -, ha⟩ : ∃ entry ∈ m.program.coreSymbols,
        a = ⟨.coreElf, Canonical.output m (entry ++ ".elf")⟩ := by
      simpa [Step.leaves, linkCommand, eq_comm] using ha
    rw [ha]
    rfl
  have hcompile : ∀ s ∈ c.compileSteps m, ∀ a ∈ s.leaves, a.kind.byTool = true := by
    rw [compileSteps, List.forall_mem_append, List.forall_mem_cons, List.forall_mem_singleton]
    refine ⟨⟨?_, ?_⟩, ?_⟩
    · simp [Step.leaves, ArtifactKind.byTool]
    · simp [Step.leaves, ArtifactKind.byTool]
    split
    · rwa [List.forall_mem_singleton]
    · simp
  intro s hs
  rcases mem_steps hs with hs | hs | hs | hs
  · rw [ipuSteps] at hs
    simp only [List.mem_cons, List.not_mem_nil, or_false] at hs
    rcases hs with rfl | rfl <;> simp [Step.leaves]
  · rw [unifiedSteps] at hs
    simp only [List.cons_append, List.nil_append, List.mem_cons] at hs
    rcases hs with rfl | rfl | hs
    · simp [Step.leaves]
    · simp [Step.leaves]
    · split at hs
      · exact hcompile s hs
      · simp at hs
  · rw [hostSteps] at hs
    simp only [List.cons_append, List.nil_append, List.mem_cons] at hs
    rcases hs with rfl | rfl | rfl | hs
    · simp [Step.leaves]
    · simp [Step.leaves]
    · simp [Step.leaves]
    · split at hs
      · rw [List.mem_singleton.1 hs]
        simp [Step.leaves]
      · simp at hs
  · rw [xclbinSteps] at hs
    simp only [List.mem_cons, List.not_mem_nil, or_false] at hs
    rcases hs with rfl | rfl | rfl | rfl <;> simp [Step.leaves, ArtifactKind.byTool]

/-- What a step writes is all that the host needs, or nothing of it. -/
theorem host_together {g : List Translation} (hg : g ∈ groups (c.steps m)) {p : Translation}
    (hp : p ∈ g) (hhost : p ∈ hostTranslations m) : g = hostTranslations m := by
  obtain ⟨s, hs, rfl⟩ := List.mem_map.1 hg
  have hkind : p.1.kind = .hostGlue ∨ p.1.kind = .deviceConfig := by
    simp only [hostTranslations, List.mem_cons, List.not_mem_nil, or_false] at hhost
    rcases hhost with rfl | rfl <;> simp
  have hflat {steps : List Step} (hs : s ∈ steps) : p ∈ (groups steps).flatten :=
    List.mem_flatten_of_mem (List.mem_map_of_mem hs) hp
  rcases mem_steps hs with hs | hs | hs | hs
  · have hmem := hflat hs
    rw [flatten_ipuSteps, ipuTranslations, List.mem_singleton] at hmem
    simp [hmem] at hkind
  · have hmem := hflat hs
    rw [flatten_unifiedSteps, unifiedTranslations, List.mem_singleton] at hmem
    simp [hmem] at hkind
  · have hmem : s.outputs ∈ groups (c.hostSteps m) := List.mem_map_of_mem hs
    rw [groups_hostSteps] at hmem
    simp only [List.mem_cons] at hmem
    rcases hmem with h | h | h | h
    · simp [h] at hp
    · simp [h] at hp
    · exact h
    · split at h <;> simp_all
  · have hmem := hflat hs
    simp only [flatten_xclbinSteps, xclbinTranslations, List.mem_cons, List.not_mem_nil,
      or_false] at hmem
    rcases hmem with rfl | rfl | rfl <;> simp at hkind

/-! ### Runs -/

/-- The paths of all that a compilation translates itself. -/
def outputPaths (c : Compilation) : List String :=
  [c.options.ipuInstsName, "input.ll", "aie_inc.cpp", "aie_control.cpp", "kernels.json",
    "mem_topology.json", "aie_partition.json"].map (Path.join c.workDir)

/-- Where all that a compilation translates itself is. -/
def outputLocations (c : Compilation) : List Location :=
  c.outputPaths.map (destination c.setting.directory)

/-- The outputs are different files, or will be: no path leads where another one does, none leads to
a device, and no file is at two of the places. -/
structure OutputsApart (c : Compilation) (t : FileTree) : Prop where
  distinct : c.outputLocations.Nodup
  free : t.Free c.outputLocations

/-- The canonical program of a run and the journal of the moment, if the run comes that far. -/
def prepared? (c : Compilation) (j : Journal) : Option (Canonical × Journal) :=
  let (r, i) := Session.runOn c.prepare j
  r.toOption.map (·, i)

/-- The paths that a run opens. -/
def opened (c : Compilation) (j : Journal) : List String :=
  ((c.prepared? j).map fun (m, i) => c.openedBy (c.steps m) i).getD []

/-- The artifacts of a run up to its end. -/
def kept (c : Compilation) (j : Journal) : List Artifact :=
  ((c.prepared? j).map fun (m, i) => c.keptBy (c.steps m) i).getD []

/-- What a path holds. -/
def held (c : Compilation) (t : FileTree) (path : String) : Option Bytes :=
  t.bytesAt? (destination c.setting.directory path)

/-- A path holds the whole text of its translation in a run that started with a journal. -/
def Complete (c : Compilation) (j : Journal) (t : FileTree) (path : String) : Prop :=
  ∃ m i s, c.prepared? j = some (m, i) ∧ ∃ a, (a, .ok s) ∈ c.translations m ∧ a.path = path ∧
    c.held t path = some (.ofText s)

/-- A run leaves no partial translation behind. -/
structure WholeOutputs (c : Compilation) (j : Journal) (r : Except CompileError Report)
    (k : Journal) : Prop where
  /-- An output has its whole text, or is absent, or was not touched. -/
  whole : ∀ path ∈ c.outputPaths, c.Complete j k.files path ∨ c.held k.files path = none ∨
    path ∉ c.opened j ∧ c.held k.files path = c.held j.files path
  /-- The sources of the host are both from this run, or none of them is. -/
  together : let fromRun path := path ∈ c.opened j ∧ c.Complete j k.files path
    fromRun (Path.join c.workDir "aie_inc.cpp") ↔ fromRun (Path.join c.workDir "aie_control.cpp")
  /-- What was kept before the run ended is complete. -/
  kept : ∀ a ∈ c.kept j, a.kind.byTool = false → c.Complete j k.files a.path
  /-- A report lists what was kept. -/
  reported : ∀ report, r = .ok report → report.artifacts = c.kept j

/-- The working directory is made if it is not there. -/
theorem createWorkDir_spec (path : String) (j : Journal) :
    let k := (Session.runOn (c.createWorkDir path) j).2
    AddsDirectories j.files k.files ∧ k.invocations = j.invocations := by
  rw [createWorkDir, Session.runOn_changeFiles]
  refine ⟨?_, rfl⟩
  dsimp only
  split
  · next t hmade => exact makeDirectory_ok hmade
  · split_ifs <;> exact ⟨fun _ => .inl rfl, rfl⟩

/-- Only the source is read before the program is canonical. -/
theorem canonicalize_frame (path : String) (j : Journal) :
    let k := (Session.runOn (c.canonicalize path) j).2
    k.files = j.files ∧ k.invocations = j.invocations := by
  have hR : Session.Accumulates fun j k => k.files = j.files ∧ k.invocations = j.invocations :=
    ⟨fun _ _ _ h h' => ⟨h'.1.trans h.1, h'.2.trans h.2⟩, fun _ _ _ => ⟨rfl, rfl⟩⟩
  have hload : Session.Within
      (fun j k => k.files = j.files ∧ k.invocations = j.invocations) c.load := by
    refine .bind hR (.of_eq hR fun j => by rw [Session.runOn_files]) fun t => ?_
    split
    · exact .of_eq hR fun _ => rfl
    · exact .ofResult hR _
  refine Session.Within.bind hR hload (fun p => .bind hR (.printIf hR _ _) fun _ =>
    .bind hR ?_ fun p => .bind hR (.printIf hR _ _) fun _ => .bind hR (.ofResult hR _) fun arch =>
    .bind hR (fun _ => ⟨rfl, rfl⟩) fun _ => .of_eq hR fun _ => rfl) j
  exact .bind hR (.printIf hR _ _) fun _ => .ofResult hR _

/-- The canonical module keeps the working directory of its file. -/
theorem canonicalize_workDir {path : String}
    (hrun : Session.runOn (c.canonicalize path) j = (.ok m, k)) : m.workDir = path := by
  rw [canonicalize] at hrun
  obtain ⟨_, _, -, hrun⟩ := Session.bind_ok.1 hrun
  obtain ⟨_, _, -, hrun⟩ := Session.bind_ok.1 hrun
  obtain ⟨_, _, -, hrun⟩ := Session.bind_ok.1 hrun
  obtain ⟨_, _, -, hrun⟩ := Session.bind_ok.1 hrun
  obtain ⟨_, _, -, hrun⟩ := Session.bind_ok.1 hrun
  obtain ⟨_, _, -, hrun⟩ := Session.bind_ok.1 hrun
  cases hrun
  rfl

/-- No file has changed when the canonical program is there, and no command was run. -/
theorem prepare_spec (c : Compilation) (j : Journal) :
    let k := (Session.runOn c.prepare j).2
    AddsDirectories j.files k.files ∧ k.invocations = j.invocations := by
  have hdir := createWorkDir_spec (c := c) c.workDir j
  rw [prepare, Session.runOn_bind]
  rcases hrun : Session.runOn (c.createWorkDir c.workDir) j with ⟨e | ⟨⟩, i⟩ <;> rw [hrun] at hdir
  · exact hdir
  · obtain ⟨hfiles, hinvocations⟩ := canonicalize_frame (c := c) c.workDir i
    dsimp only
    rw [hfiles, hinvocations]
    exact hdir

/-- Preparing a compilation keeps its working directory. -/
theorem prepare_workDir (hrun : Session.runOn c.prepare j = (.ok m, k)) :
    m.workDir = c.workDir := by
  obtain ⟨_, _, -, hrun⟩ := Session.bind_ok.1 hrun
  exact canonicalize_workDir hrun

/-- The translations of a canonical program go to the paths of the compilation. -/
theorem translations_paths (hm : m.workDir = c.workDir) :
    (c.translations m).map (·.1.path) = c.outputPaths := by
  obtain ⟨p, path, arch⟩ := m
  cases hm
  rfl

/-- The translations of a module are written where the compilation says its outputs are. -/
theorem translations_locations (hm : m.workDir = c.workDir) :
    (c.translations m).map (·.1.location c.setting.directory) = c.outputLocations := by
  rw [outputLocations, ← translations_paths hm, List.map_map]
  rfl

/-- What the steps of a canonical program deliver is whole. -/
theorem wholeOutputs_of_delivered {i : Journal} {r : Except CompileError Report}
    (hapart : c.OutputsApart j.files) (hprepared : c.prepared? j = some (m, i))
    (hm : m.workDir = c.workDir) (hsame : ∀ l, i.files.bytesAt? l = j.files.bytesAt? l)
    (hd : Delivered c.setting.directory c.outputLocations (groups (c.steps m))
      (c.openedBy (c.steps m) i) (c.keptBy (c.steps m) i) i.files k.files)
    (hr : ∀ report, r = .ok report → report.artifacts = c.keptBy (c.steps m) i) :
    c.WholeOutputs j r k := by
  have hopened : c.opened j = c.openedBy (c.steps m) i := by
    rw [opened, hprepared]
    rfl
  have hkept : c.kept j = c.keptBy (c.steps m) i := by
    rw [Compilation.kept, hprepared]
    rfl
  have hmem (p) (hp : p ∈ (groups (c.steps m)).flatten) : p ∈ c.translations m :=
    flatten_steps_sublist.subset hp
  have hunique (p) (hp : p ∈ c.translations m) (q) (hq : q ∈ c.translations m)
      (h : p.1.location c.setting.directory = q.1.location c.setting.directory) : p = q :=
    List.inj_on_of_nodup_map (translations_locations hm ▸ hapart.distinct) hp hq h
  have hcomplete (p : Translation) (hp : p ∈ (groups (c.steps m)).flatten)
      (hon : p.OnDisk c.setting.directory k.files) : c.Complete j k.files p.1.path := by
    obtain ⟨a, text⟩ := p
    obtain ⟨s, rfl, hs⟩ := hon
    exact ⟨m, i, s, hprepared, a, hmem _ hp, rfl, hs⟩
  have hsubset : hostTranslations m ⊆ c.translations m := fun p hp => by
    simp [translations, hp]
  -- each source of the host is written in the step that also writes the other one
  have hhost (p) (hp : p ∈ hostTranslations m) (q) (hq : q ∈ hostTranslations m)
      (h : p.1.path ∈ c.opened j ∧ c.Complete j k.files p.1.path) :
      q.1.path ∈ c.opened j ∧ c.Complete j k.files q.1.path := by
    obtain ⟨hpath, m', i', s, hprepared', a, ha, hap, hs⟩ := h
    obtain ⟨rfl, rfl⟩ : m = m' ∧ i = i' := by simpa [hprepared] using hprepared'
    obtain rfl : (a, .ok s) = p :=
      hunique _ ha _ (hsubset hp) (by rw [Artifact.location, Artifact.location, hap])
    obtain ⟨p', hp', hname⟩ := hd.named _ (hopened ▸ hpath)
    obtain rfl : p' = (a, .ok s) :=
      hunique _ (hmem _ hp') _ ha (by rw [Artifact.location, Artifact.location, hname])
    obtain ⟨g, hg, hpg⟩ := List.mem_flatten.1 hp'
    have hqg : q ∈ g := host_together hg hpg hp ▸ hq
    obtain ⟨hqopened, hqon⟩ := hd.together g hg _ hpg q hqg (hopened ▸ hpath) ⟨s, rfl, hs⟩
    exact ⟨hopened ▸ hqopened, hcomplete q (List.mem_flatten_of_mem hg hqg) hqon⟩
  refine ⟨fun path hpath => ?_, ?_, fun a ha hkind => ?_, hkept ▸ hr⟩
  · obtain ⟨p, hp, rfl⟩ := List.mem_map.1 (translations_paths hm ▸ hpath)
    by_cases hmem' : p ∈ (groups (c.steps m)).flatten
    · by_cases hpath' : p.1.path ∈ c.opened j
      · exact (hd.whole p hmem' (hopened ▸ hpath')).symm.imp (hcomplete p hmem') .inl
      · exact .inr (.inr ⟨hpath', (hd.unopened p hmem' (hopened ▸ hpath')).trans (hsame _)⟩)
    · have hnot : p.1.path ∉ c.opened j := fun h => by
        obtain ⟨q, hq, hname⟩ := hd.named _ (hopened ▸ h)
        rw [hunique q (hmem q hq) p hp (by rw [Artifact.location, Artifact.location, hname])] at hq
        exact hmem' hq
      refine .inr (.inr ⟨hnot, (hd.others _ ?_ fun q hq h => ?_).trans (hsame _)⟩)
      · exact List.mem_map_of_mem hpath
      · exact hmem' (hunique q (hmem q hq) p hp h ▸ hq)
  · dsimp only
    have hpaths (name : String) :
        Path.join c.workDir name = Canonical.output m name := by rw [Canonical.output, hm]
    rw [hpaths, hpaths]
    have hglue : (⟨.hostGlue, Canonical.output m "aie_inc.cpp"⟩,
        (Pipeline.host.result m.program).hostGlue) ∈ hostTranslations m := by
      simp [hostTranslations]
    have hconfig : (⟨.deviceConfig, Canonical.output m "aie_control.cpp"⟩,
        (Pipeline.host.result m.program).deviceConfig) ∈ hostTranslations m := by
      simp [hostTranslations]
    exact ⟨hhost _ hglue _ hconfig, hhost _ hconfig _ hglue⟩
  · obtain ⟨s, hs, hon⟩ := hd.kept a (hkept ▸ ha) hkind
    exact hcomplete _ hs hon

/-- A run leaves no partial translation behind, however it ends: if tools leave the outputs alone,
each has its whole text, or is absent, or was not touched. -/
theorem run_wholeOutputs (hapart : c.OutputsApart j.files)
    (htools : ∀ launch t, FileTree.Keeps c.outputLocations t (c.setting.tools launch t).2) :
    c.WholeOutputs j (Session.runOn c.run j).1 (Session.runOn c.run j).2 := by
  obtain ⟨hprepared, -⟩ := prepare_spec c j
  have hsame := hprepared.bytesAt?
  have hfree := hprepared.free hapart.free
  rw [run_eq, Session.runOn_bind]
  rcases hprepare : Session.runOn c.prepare j with ⟨e | m, i⟩ <;> rw [hprepare] at hfree hsame
  · have hnone : c.prepared? j = none := by
      rw [prepared?, hprepare]
      rfl
    have hopened : c.opened j = [] := by
      rw [opened, hnone]
      rfl
    have hkept : c.kept j = [] := by
      rw [kept, hnone]
      rfl
    exact {
      whole path _ := .inr (.inr ⟨by simp [hopened], hsame _⟩)
      together := by simp [hopened]
      kept := by simp [hkept]
      reported := by simp }
  · have hsome : c.prepared? j = some (m, i) := by
      rw [prepared?, hprepare]
      rfl
    have hm := prepare_workDir hprepare
    dsimp only at hfree hsame ⊢
    rw [Session.runOn_bind]
    rcases hsteps : Session.runOn (c.execAll (c.steps m)) i with ⟨r, k⟩
    have hloc := translations_locations hm
    obtain ⟨hd, hkept⟩ := execAll_delivered htools
      (fun p hp => hloc ▸ List.mem_map_of_mem (flatten_steps_sublist.subset hp))
      ((hloc ▸ hapart.distinct).sublist (flatten_steps_sublist.map _)) leaves_steps hsteps hfree
    cases r with
    | error e => exact wholeOutputs_of_delivered hapart hsome hm hsame hd (by simp)
    | ok artifacts =>
        refine wholeOutputs_of_delivered hapart hsome hm hsame hd ?_
        rintro _ ⟨⟩
        exact hkept artifacts rfl

/-- A compilation in which every tool fails. -/
def failingTools : Compilation where
  options := { input := "a.mlir", unified := true, generateIpu := true }
  setting := { tools := fun _ t => (.ok { code := some 1 }, t) }

/-- The source of a device with one core. -/
def oneCoreFiles : FileTree where
  nodes := [(["a.mlir"], .file 0 false)]
  contents := #[.ofText "aie.device(ipu) \x7b %t = aie.tile(0, 2) aie.core(%t) \x7b \x7d \x7d"]

/-- The text of the cores is complete when the first tool fails. -/
theorem run_wholeOutputs_failingTools :
    (failingTools.OutputsApart oneCoreFiles ∧
      ∀ launch t, FileTree.Keeps failingTools.outputLocations t
        (failingTools.setting.tools launch t).2) ∧
    failingTools.WholeOutputs { files := oneCoreFiles }
      (Session.runOn failingTools.run { files := oneCoreFiles }).1
      (Session.runOn failingTools.run { files := oneCoreFiles }).2 ∧
    (Session.runOn failingTools.run { files := oneCoreFiles }).1.isOk = false ∧
    failingTools.Complete { files := oneCoreFiles }
      (Session.runOn failingTools.run { files := oneCoreFiles }).2.files
      "/a.mlir.prj/input.ll" := by
  have habsent : ∀ l ∈ failingTools.outputLocations, oneCoreFiles.node? l = none := by
    decide +kernel
  have hapart : failingTools.OutputsApart oneCoreFiles :=
    ⟨by decide +kernel, fun l hl => by simp [habsent l hl], fun l hl => by simp [habsent l hl],
      fun l hl => by simp [habsent l hl]⟩
  have hkept : ⟨.llvmIr, "/a.mlir.prj/input.ll"⟩ ∈ failingTools.kept { files := oneCoreFiles } := by
    decide +kernel
  have htools (launch : Launch) (t : FileTree) : FileTree.Keeps failingTools.outputLocations t
      (failingTools.setting.tools launch t).2 := Keeps.refl _ t
  have hwhole := run_wholeOutputs (j := { files := oneCoreFiles }) hapart htools
  exact ⟨⟨hapart, htools⟩, hwhole, by decide +kernel, hwhole.kept _ hkept rfl⟩

end Compilation

end TileFlow
