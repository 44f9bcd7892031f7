import Mathlib.Logic.Basic
import TileFlow.Tool.Session

/-!
# Runs of sessions

What it means for a session to end in some way, for each way in which sessions are put together: a
run of the whole is made of runs of the parts, up to the first error.

## Main definitions

* `Session.launch`: the start of a tool in a setting.
* `Session.Within`: a bound on what happens to the journal.

## Main results

* `Session.runOn_bind`, `Session.bind_ok`: sessions one after the other.
* `Session.runOn_changeFiles`, `Session.runOn_record`: what a session does to its journal.
* `Session.runOn_runChecked_dry`, `Session.runOn_runChecked_done`: a tool left out, and one run.
* `Session.Within.bind`, `Session.Within.runChecked`: bounds on parts are bounds on the whole.
-/

namespace TileFlow.Session

variable {α β : Type} {j k : Journal}

@[simp] theorem runOn_pure (a : α) (j : Journal) : runOn (pure a) j = (.ok a, j) := rfl

@[simp] theorem runOn_throw (e : CompileError) (j : Journal) :
    runOn (throw e : Session α) j = (.error e, j) := rfl

@[simp] theorem runOn_get (j : Journal) : runOn (get : Session Journal) j = (.ok j, j) := rfl

@[simp] theorem runOn_modify (f : Journal → Journal) (j : Journal) :
    runOn (modify f : Session Unit) j = (.ok (), f j) := rfl

/-- The first part of a run decides whether there is a second one. -/
theorem runOn_bind (x : Session α) (f : α → Session β) (j : Journal) :
    runOn (x >>= f) j =
      match runOn x j with
      | (.ok a, k) => runOn (f a) k
      | (.error e, k) => (.error e, k) := by
  show Id.run (StateT.run (ExceptT.run (x >>= f)) j) = _
  rcases h : runOn x j with ⟨r, k⟩
  have hx : Id.run (StateT.run (ExceptT.run x) j) = (r, k) := h
  cases r with
  | ok a =>
      simp only [ExceptT.run_bind, StateT.run_bind, Id.run_bind, hx]
      rfl
  | error e =>
      simp only [ExceptT.run_bind, StateT.run_bind, Id.run_bind, hx]
      rfl

/-- A successful run of two sessions is one of the first and then one of the second. -/
theorem bind_ok {x : Session α} {f : α → Session β} {b : β} :
    runOn (x >>= f) j = (.ok b, k) ↔
      ∃ a i, runOn x j = (.ok a, i) ∧ runOn (f a) i = (.ok b, k) := by
  rw [runOn_bind]
  rcases runOn x j with ⟨e | a, i⟩
  · simp
  · simp only [Prod.mk.injEq, Except.ok.injEq]
    exact ⟨fun h => ⟨a, i, ⟨rfl, rfl⟩, h⟩, by rintro ⟨_, _, ⟨rfl, rfl⟩, h⟩; exact h⟩

/-- A result is returned or thrown as it is. -/
theorem runOn_ofResult (r : Except CompileError α) (j : Journal) :
    runOn (ofResult r) j = (r, j) := by
  cases r <;> rfl

theorem runOn_files (j : Journal) : runOn files j = (.ok j.files, j) := rfl

/-- Changing the files changes nothing else. -/
theorem runOn_changeFiles (f : FileTree → Except CompileError α × FileTree) (j : Journal) :
    runOn (changeFiles f) j = ((f j.files).1, { j with files := (f j.files).2 }) := by
  rw [changeFiles, runOn_bind, runOn_files]
  dsimp only
  rw [runOn_bind, runOn_modify]
  exact runOn_ofResult _ _

theorem runOn_record (i : Invocation) (j : Journal) :
    runOn (record i) j = (.ok (), { j with invocations := j.invocations ++ [i] }) := rfl

/-- A text is printed on condition. -/
theorem runOn_printIf (condition : Bool) (s : String) (j : Journal) :
    runOn (printIf condition s) j =
      (.ok (), { j with printed := if condition then j.printed ++ s else j.printed }) := by
  cases condition <;> rfl

/-! ### Tools -/

/-- The start of a tool in a setting. -/
def launch (setting : Setting) (program : String) (args : List String) : Launch where
  program
  args
  environment := setting.toolchain.environment
  directory := setting.directory

variable {setting : Setting} (program : String) (args : List String)

/-- Starting a tool records it, if it can be launched. -/
theorem runOn_start (j : Journal) : runOn (start setting program args) j =
    match (launch setting program args).refusal? with
    | some e => (.error (.toolSpawn program e), j)
    | none =>
      match setting.tools (launch setting program args) j.files with
      | (.error e, t) => (.error (.toolSpawn program e), { j with files := t })
      | (.ok ending, t) =>
        (.ok ending, { j with
          files := t
          printed := j.printed ++ ending.output
          complaints := j.complaints ++ ending.errors }) := by
  have hl : launch setting program args = ⟨program, args, setting.toolchain.environment,
    setting.directory⟩ := rfl
  rw [start]
  simp only [runOn_bind, runOn_changeFiles, ← hl]
  rcases (launch setting program args).refusal? with _ | e
  · rcases setting.tools (launch setting program args) j.files with ⟨e | ending, t⟩ <;> rfl
  · rfl

/-- A tool that is left out is only recorded. -/
theorem runOn_runChecked_dry (h : setting.dryRun = true) (j : Journal) :
    ∃ printed, runOn (runChecked setting program args) j =
      (.ok (), { j with
        printed
        invocations := j.invocations ++ [{ program, args, skipped := true }] }) := by
  rw [runChecked, runTool]
  simp only [h, if_true, runOn_bind, runOn_printIf, runOn_record, runOn_pure]
  exact ⟨_, rfl⟩

/-- A tool that ends as it should is recorded. -/
theorem runOn_runChecked_done {j : Journal} {ending : Ending} {t : FileTree}
    (h : setting.dryRun = false) (hstart : (launch setting program args).refusal? = none)
    (hend : setting.tools (launch setting program args) j.files = (.ok ending, t))
    (hcode : ending.code = some 0) :
    ∃ printed complaints, runOn (runChecked setting program args) j =
      (.ok (), {
        files := t
        printed
        complaints
        invocations := j.invocations ++ [{ program, args, elapsed := ending.elapsed }] }) := by
  rw [runChecked, runTool]
  simp only [h, Bool.false_eq_true, if_false, runOn_bind, runOn_printIf, runOn_start, hstart, hend,
    runOn_record, runOn_pure, Ending.recordedCode, hcode]
  exact ⟨_, _, rfl⟩

/-! ### What happens to journals -/

/-- Whatever happens in a session, its journal changes within a relation. -/
def Within (R : Journal → Journal → Prop) (x : Session α) : Prop :=
  ∀ j, R j (runOn x j).2

/-- A relation that says nothing about what is printed, and holds between journals that follow one
another. -/
structure Accumulates (R : Journal → Journal → Prop) : Prop where
  trans : ∀ i j k, R i j → R j k → R i k
  print : ∀ j printed complaints, R j { j with printed, complaints }

namespace Within

variable {R : Journal → Journal → Prop} (hR : Accumulates R)

include hR

/-- What leaves the journal stays within every relation. -/
theorem of_eq {x : Session α} (h : ∀ j, (runOn x j).2 = j) : Within R x := fun j => by
  rw [h]
  exact hR.print j j.printed j.complaints

/-- Two sessions in a row stay within the relation. -/
theorem bind {x : Session α} {f : α → Session β} (hx : Within R x)
    (hf : ∀ a, Within R (f a)) : Within R (x >>= f) := by
  intro j
  have hxj := hx j
  rw [runOn_bind]
  rcases hrun : runOn x j with ⟨e | a, k⟩ <;> rw [hrun] at hxj
  · exact hxj
  · exact hR.trans _ _ _ hxj (hf a k)

/-- A session for each element of a list stays within the relation. -/
theorem mapM {f : α → Session β} (hf : ∀ a, Within R (f a)) (l : List α) :
    Within R (l.mapM f) := by
  induction l with
  | nil => exact of_eq hR fun _ => rfl
  | cons a rest ih =>
      rw [List.mapM_cons]
      exact bind hR (hf a) fun _ => bind hR ih fun _ => of_eq hR fun _ => rfl

/-- A result stays within the relation. -/
theorem ofResult (r : Except CompileError α) : Within R (Session.ofResult r) :=
  of_eq hR fun j => by rw [runOn_ofResult]

/-- Printing stays within the relation. -/
theorem printIf (condition : Bool) (s : String) : Within R (Session.printIf condition s) :=
  fun j => by
    rw [runOn_printIf]
    exact hR.print j _ j.complaints

/-- A tool changes the journal within a relation if its files and its record do. -/
theorem runChecked (hfiles : ∀ j launch, R j { j with files := (setting.tools launch j.files).2 })
    (hrecord : ∀ (j : Journal) i, R j { j with invocations := j.invocations ++ [i] }) :
    Within R (runChecked setting program args) := by
  have hstart : Within R (start setting program args) := by
    intro j
    have hstarted := hfiles j (launch setting program args)
    rw [runOn_start]
    rcases (launch setting program args).refusal? with _ | e
    · rcases hend : setting.tools (launch setting program args) j.files with ⟨e | ending, t⟩ <;>
        rw [hend] at hstarted
      · exact hstarted
      · exact hR.trans _ _ _ hstarted (hR.print _ _ _)
    · exact hR.print j j.printed j.complaints
  have hrun : Within R (runTool setting program args) := by
    rw [runTool]
    refine bind hR (printIf hR _ _) fun _ => ?_
    cases setting.dryRun with
    | true => exact bind hR (fun j => hrecord j _) fun _ => of_eq hR fun _ => rfl
    | false =>
        refine bind hR hstart fun _ => bind hR (printIf hR _ _) fun _ => ?_
        exact bind hR (fun j => hrecord j _) fun _ => of_eq hR fun _ => rfl
  refine bind hR hrun fun code => of_eq hR fun j => ?_
  by_cases hcode : code = 0 <;> simp [hcode]

end Within

end TileFlow.Session
