import Mathlib.Logic.Function.Basic
import TileFlow.Proofs.Files.Alike
import TileFlow.Proofs.Files.Output

/-!
# Output files that are written at the same time

Several output files can be open at once, and what is done with one of them may come between any
two steps of another. As long as no two of them lie at one location they do not notice each other:
whatever the order of the steps, a file that is kept holds what was written to it and no more, a
file that is given up is gone, and no other location is touched, not even by a file that cannot be
opened.

## Main definitions

* `FileTree.Unshared`: no file is reached from two locations.
* `OutputFile.Event`, `OutputFile.Progress`: what is done with an output file, and how far it came.
* `OutputFile.Batch`: output files that are written at the same time.
* `OutputFile.written`: all that events write to a file.

## Main results

* `FileTree.ChangedAt.snapshot?_eq`: a change at a location is not seen from another one.
* `OutputFile.Batch.delivers_of_run?`: what every run of events keeps up.
* `OutputFile.Batch.run?_delivered`: kept files are whole, those given up are gone, all else stays.
-/

namespace TileFlow

namespace FileTree

variable {t t' : FileTree} {l l' : Location} {ls : List Location}

/-- Every file has contents, and no file is reached from two locations. -/
structure Unshared (t : FileTree) : Prop where
  sound : t.Sound
  apart : ∀ l l' id x x', t.node? l = some (.file id x) → t.node? l' = some (.file id x') → l = l'

/-- Locations without devices can be written to. -/
theorem Unshared.free (h : t.Unshared)
    (hd : ∀ l ∈ ls, ∀ d, t.node? l ≠ some (.device d)) : t.Free ls :=
  ⟨hd, fun l _ => h.sound l, fun l _ l' _ => h.apart l l'⟩

namespace ChangedAt

/-- A change brings no device. -/
theorem noDevice (h : ChangedAt l t t') (hl' : ∀ d, t.node? l' ≠ some (.device d)) (d : Device) :
    t'.node? l' ≠ some (.device d) := by
  by_cases hl : l' = l
  · subst hl
    rcases h.entry with he | he | ⟨i, x, he, -⟩
    · rw [he]
      exact hl' d
    · simp [he]
    · simp [he]
  · rw [h.node l' hl]
    exact hl' d

/-- A change leaves files unshared. -/
theorem unshared (h : ChangedAt l t t') (ht : t.Unshared)
    (hl : ∀ d, t.node? l ≠ some (.device d)) : t'.Unshared := by
  -- a file of the new tree is at a location that was free before
  have hfile (k) (id x) (hk : t'.node? k = some (.file id x)) (d : Device) :
      t.node? k ≠ some (.device d) := by
    by_cases hkl : k = l
    · exact hkl ▸ hl d
    · rw [h.node k hkl] at hk
      simp [hk]
  have hfree {k k' id id' x x'} (hk : t'.node? k = some (.file id x))
      (hk' : t'.node? k' = some (.file id' x')) : t'.Free [l, k, k'] := by
    refine h.free (ht.free ?_) List.mem_cons_self
    simpa using ⟨hl, hfile k id x hk, hfile k' id' x' hk'⟩
  exact ⟨fun k id x hx => (hfree hx hx).known k (by simp) id x hx,
    fun k k' id x x' hx hx' => (hfree hx hx').apart k (by simp) k' (by simp) id x x' hx hx'⟩

/-- A change at a location is not seen from another one. -/
theorem snapshot?_eq (h : ChangedAt l t t') (ht : t.Unshared) (hne : l' ≠ l) :
    t'.snapshot? l' = t.snapshot? l' := by
  rw [snapshot?, snapshot?, h.node l' hne]
  refine Option.map_congr fun node hnode => ?_
  rcases node with _ | ⟨id, x⟩ | d
  · rfl
  · have hid := h.contents id (ht.sound l' id x hnode) fun y hy => hne (ht.apart _ _ _ _ _ hnode hy)
    simp only [contentsOf, hid]
  · rfl

end ChangedAt

end FileTree

namespace OutputFile

open FileTree

/-- What is done with an output file. -/
inductive Event where
  | create
  | write (bytes : Bytes)
  | flush
  | keep
  | drop
  deriving DecidableEq

/-- How far an output file has come. -/
inductive Progress where
  /-- It was not opened, or could not be. -/
  | absent
  | opened (o : OutputFile)
  | kept
  | dropped
  deriving DecidableEq

/-- The bytes that an event writes. -/
def Event.bytes : Event → Bytes
  | .write bytes => bytes
  | _ => []

namespace Progress

/-- Whether there is an output file for an event: it is opened once, and used until its end. -/
def allows : Progress → Event → Bool
  | .absent, .create => true
  | .opened _, .create => false
  | .opened _, _ => true
  | _, _ => false

/-- One event of the output file behind a path. There is no result without an output file for the
event, nor if a write fails. -/
def step? (directory : Location) (path : String) (t : FileTree) :
    Progress → Event → Option (Progress × FileTree)
  | .absent, .create =>
    match OutputFile.create directory path t with
    | .error _ => some (.absent, t)
    | .ok (o, t) => some (.opened o, t)
  | .opened o, .write bytes =>
    match o.write bytes t with
    | .error _ => none
    | .ok (o, t) => some (.opened o, t)
  | .opened o, .flush =>
    match o.flush t with
    | .error _ => none
    | .ok (o, t) => some (.opened o, t)
  | .opened o, .keep =>
    match o.keep t with
    | .error _ => none
    | .ok t => some (.kept, t)
  | .opened o, .drop => some (.dropped, o.discard directory t)
  | _, _ => none

/-- What is at the destination of an output file to which some bytes were written: what was there
in an earlier tree if it was not opened, nothing if it was given up, and the bytes if it was
kept. -/
def Outcome (directory : Location) (path : String) (bytes : Bytes) (before t : FileTree) :
    Progress → Prop
  | .absent => t.node? (destination directory path) = before.node? (destination directory path) ∧
      t.snapshot? (destination directory path) = before.snapshot? (destination directory path)
  | .opened o => o.Holds directory (destination directory path) bytes t
  | .kept => t.bytesAt? (destination directory path) = some bytes
  | .dropped => t.node? (destination directory path) = none

variable {directory l : Location} {path : String} {bytes : Bytes} {before t t' : FileTree}
  {p p' : Progress} {e : Event}

/-- The destination of an output file is in the tree that it was opened in, whatever changes at
another location. -/
theorem Outcome.frame (h : p.Outcome directory path bytes before t) (hc : ChangedAt l t t')
    (ht : t.Unshared) (hl : ∀ d, t.node? l ≠ some (.device d))
    (hd : ∀ d, t.node? (destination directory path) ≠ some (.device d))
    (hne : destination directory path ≠ l) : p.Outcome directory path bytes before t' := by
  have hnode := hc.node _ hne
  have hsnapshot := hc.snapshot?_eq ht hne
  cases p with
  | absent => exact ⟨hnode.trans h.1, hsnapshot.trans h.2⟩
  | opened o =>
      have hf : t.Free [l, destination directory path] := ht.free (by simpa using ⟨hl, hd⟩)
      exact OutputFile.Holds.frame h hc hf (by simp) (by simp) hne
  | kept => exact (congrArg Option.join hsnapshot).trans h
  | dropped => exact hnode.trans h

/-- An event leaves a file unopened as it was, or changes what is at its destination only. -/
theorem step?_ok (h : p.step? directory path t e = some (p', t'))
    (hp : p.Outcome directory path bytes before t) (hempty : p = .absent → bytes = [])
    (ht : t.Unshared) (hd : ∀ d, t.node? (destination directory path) ≠ some (.device d)) :
    p' = .absent ∧ p = .absent ∧ t' = t ∧ e.bytes = [] ∨
      p' ≠ .absent ∧ ChangedAt (destination directory path) t t' ∧
        p'.Outcome directory path (bytes ++ e.bytes) before t' := by
  cases p with
  | absent =>
      cases e <;> simp only [step?, reduceCtorEq] at h
      obtain rfl := hempty rfl
      rcases hcreate : OutputFile.create directory path t with e | ⟨o, t₁⟩ <;>
        simp only [hcreate, Option.some.injEq, Prod.mk.injEq] at h <;> obtain ⟨rfl, rfl⟩ := h
      · exact .inl ⟨rfl, rfl, rfl, rfl⟩
      · have hfree : t.Free [destination directory path] := ht.free (by simpa using hd)
        obtain ⟨hc, ho⟩ := OutputFile.create_ok hcreate hfree (by simp)
        exact .inr ⟨by simp, hc, ho⟩
  | opened o =>
      refine .inr ?_
      cases e with
      | create => simp [step?] at h
      | write new =>
          obtain ⟨o', t₁, hw, -, hc, ho⟩ := OutputFile.Holds.write_spec hp new
          simp only [step?, hw, Option.some.injEq, Prod.mk.injEq] at h
          obtain ⟨rfl, rfl⟩ := h
          exact ⟨by simp, hc, ho⟩
      | flush =>
          obtain ⟨o', t₁, hw, -, -, hc, ho⟩ := OutputFile.Holds.flush_spec hp
          simp only [step?, hw, Option.some.injEq, Prod.mk.injEq] at h
          obtain ⟨rfl, rfl⟩ := h
          exact ⟨by simp, hc, (List.append_nil bytes).symm ▸ ho⟩
      | keep =>
          obtain ⟨t₁, hw, hc, hkept⟩ := OutputFile.Holds.keep_spec hp
          simp only [step?, hw, Option.some.injEq, Prod.mk.injEq] at h
          obtain ⟨rfl, rfl⟩ := h
          exact ⟨by simp, hc, (List.append_nil bytes).symm ▸ hkept⟩
      | drop =>
          obtain ⟨hc, hgone⟩ := OutputFile.Holds.discard_spec hp
          simp only [step?, Option.some.injEq, Prod.mk.injEq] at h
          obtain ⟨rfl, rfl⟩ := h
          exact ⟨by simp, hc, hgone⟩
  | kept => simp [step?] at h
  | dropped => simp [step?] at h

/-- An event for which there is an output file has a result: no write fails. -/
theorem exists_step? (hp : p.Outcome directory path bytes before t) (he : p.allows e = true) :
    ∃ p' t', p.step? directory path t e = some (p', t') := by
  cases p with
  | absent =>
      cases e <;> simp only [allows, Bool.false_eq_true] at he
      rcases hcreate : OutputFile.create directory path t with e | ⟨o, t₁⟩ <;>
        simp [step?, hcreate]
  | opened o =>
      cases e with
      | create => simp [allows] at he
      | write new =>
          obtain ⟨o', t₁, hw, -⟩ := OutputFile.Holds.write_spec hp new
          exact ⟨_, _, by simp only [step?, hw]; rfl⟩
      | flush =>
          obtain ⟨o', t₁, hw, -⟩ := OutputFile.Holds.flush_spec hp
          exact ⟨_, _, by simp only [step?, hw]; rfl⟩
      | keep =>
          obtain ⟨t₁, hw, -⟩ := OutputFile.Holds.keep_spec hp
          exact ⟨_, _, by simp only [step?, hw]; rfl⟩
      | drop => exact ⟨_, _, rfl⟩
  | kept => simp [allows] at he
  | dropped => simp [allows] at he

/-- A file that is kept or given up has come to its end. -/
theorem step?_ended (h : p.step? directory path t e = some (p', t')) :
    p ≠ .kept ∧ p ≠ .dropped ∧ (e = .keep → p' = .kept) ∧ (e = .drop → p' = .dropped) := by
  refine ⟨?_, ?_, ?_, ?_⟩
  · rintro rfl
    simp [step?] at h
  · rintro rfl
    simp [step?] at h
  · rintro rfl
    cases p <;> simp only [step?, reduceCtorEq] at h
    split at h <;> simp_all
  · rintro rfl
    cases p <;> simp [step?] at h
    exact h.1.symm

end Progress

/-- Output files that are written at the same time, each under an index, and the tree that they are
in. -/
structure Batch (ι : Type) where
  tree : FileTree
  files : ι → Progress

section Batch

variable {ι : Type} [DecidableEq ι]

/-- All that events write to the output file with an index. -/
def written (i : ι) (events : List (ι × Event)) : Bytes :=
  events.flatMap fun s => if s.1 = i then s.2.bytes else []

namespace Batch

/-- The start: no file is opened yet. -/
def start (t : FileTree) : Batch ι :=
  ⟨t, fun _ => .absent⟩

/-- One event of one of the files. -/
def step? (directory : Location) (path : ι → String) (b : Batch ι) (s : ι × Event) :
    Option (Batch ι) :=
  ((b.files s.1).step? directory (path s.1) b.tree s.2).map fun (p, t) =>
    ⟨t, Function.update b.files s.1 p⟩

/-- Events of the files, in any order. -/
def run? (directory : Location) (path : ι → String) (events : List (ι × Event)) (b : Batch ι) :
    Option (Batch ι) :=
  events.foldlM (step? directory path) b

variable {directory : Location} {path : ι → String} {events : List (ι × Event)} {s : ι × Event}
  {before : FileTree} {b b' : Batch ι}

/-- What events keep up: each file stands for itself, and nothing but the destinations of files
that were opened has changed. -/
structure Delivers (directory : Location) (path : ι → String) (events : List (ι × Event))
    (before : FileTree) (b : Batch ι) : Prop where
  unshared : b.tree.Unshared
  noDevice : ∀ i d, b.tree.node? (destination directory (path i)) ≠ some (.device d)
  outcome : ∀ i, (b.files i).Outcome directory (path i) (written i events) before b.tree
  unwritten : ∀ i, b.files i = .absent → written i events = []
  others : ∀ l, (∀ i, l = destination directory (path i) → b.files i = .absent) →
    b.tree.node? l = before.node? l ∧ b.tree.snapshot? l = before.snapshot? l
  kept : ∀ i, (i, .keep) ∈ events → b.files i = .kept
  dropped : ∀ i, (i, .drop) ∈ events → b.files i = .dropped

/-- Nothing has happened at the start. -/
theorem delivers_start (ht : before.Unshared)
    (hd : ∀ i d, before.node? (destination directory (path i)) ≠ some (.device d)) :
    Delivers directory path [] before (start before) where
  unshared := ht
  noDevice := hd
  outcome _ := ⟨rfl, rfl⟩
  unwritten _ _ := rfl
  others _ _ := ⟨rfl, rfl⟩
  kept _ h := by simp at h
  dropped _ h := by simp at h

/-- An event that ends a file is the last one of it. -/
theorem update_of_ended {k : ι} {e e' : Event} {p q : Progress}
    (hq : ∀ i, (i, e') ∈ events → b.files i = q) (hend : b.files k ≠ q) (he : e = e' → p = q)
    (i : ι) (hi : (i, e') ∈ events ++ [(k, e)]) : Function.update b.files k p i = q := by
  rcases List.mem_append.1 hi with hold | hnew
  · have hne : i ≠ k := by
      rintro rfl
      exact hend (hq i hold)
    rw [Function.update_of_ne hne, hq i hold]
  · obtain ⟨rfl, rfl⟩ : i = k ∧ e' = e := by simpa using hnew
    rw [Function.update_self, he rfl]

/-- One more event keeps it up, whichever file it is about. -/
theorem Delivers.step (h : Delivers directory path events before b)
    (hpath : ∀ i j, destination directory (path i) = destination directory (path j) → i = j)
    (hstep : b.step? directory path s = some b') :
    Delivers directory path (events ++ [s]) before b' := by
  obtain ⟨k, e⟩ := s
  simp only [step?, Option.map_eq_some_iff, Prod.exists] at hstep
  obtain ⟨p, t, hstep, rfl⟩ := hstep
  have hwritten (i) : written i (events ++ [(k, e)]) =
      written i events ++ if k = i then e.bytes else [] := by
    simp [written, List.flatMap_append]
  obtain ⟨hkept, hdropped, hkeep, hdrop⟩ := Progress.step?_ended hstep
  have hkept := update_of_ended h.kept hkept hkeep
  have hdropped := update_of_ended h.dropped hdropped hdrop
  have hd := h.noDevice k
  rcases Progress.step?_ok hstep (h.outcome k) (h.unwritten k) h.unshared hd with
    ⟨rfl, hk, rfl, hbytes⟩ | ⟨hp, hc, hout⟩
  · -- a file that could not be opened
    have hsame : Function.update b.files k .absent = b.files := by
      rw [← hk, Function.update_eq_self]
    simp only [hbytes, ite_self, List.append_nil] at hwritten
    rw [hsame] at hkept hdropped ⊢
    exact {
      unshared := h.unshared
      noDevice := h.noDevice
      outcome i := hwritten i ▸ h.outcome i
      unwritten i hi := (hwritten i).trans (h.unwritten i hi)
      others := h.others
      kept := hkept
      dropped := hdropped }
  · refine {
      unshared := hc.unshared h.unshared hd
      noDevice i := hc.noDevice (h.noDevice i)
      outcome i := ?_
      unwritten i hi := ?_
      others l hl := ?_
      kept := hkept
      dropped := hdropped }
    · by_cases hik : k = i
      · subst hik
        simpa [hwritten] using hout
      · have hne := fun heq => hik (hpath i k heq).symm
        simpa [hwritten, hik, Function.update_of_ne (Ne.symm hik)] using
          (h.outcome i).frame hc h.unshared hd (h.noDevice i) hne
    · have hik : k ≠ i := by
        rintro rfl
        exact hp (by simpa using hi)
      rw [hwritten, h.unwritten i (by simpa [Function.update_of_ne (Ne.symm hik)] using hi)]
      simp [hik]
    · have hne : l ≠ destination directory (path k) := fun heq => hp (by simpa using hl k heq)
      obtain ⟨hnode, hsnapshot⟩ := h.others l fun i hi => by
        have hik : i ≠ k := by
          rintro rfl
          exact hne hi
        simpa [Function.update_of_ne hik] using hl i hi
      exact ⟨(hc.node l hne).trans hnode, (hc.snapshot?_eq h.unshared hne).trans hsnapshot⟩

/-- Every run of events keeps it up, whatever the order of the events. -/
theorem delivers_of_run? (ht : before.Unshared)
    (hd : ∀ i d, before.node? (destination directory (path i)) ≠ some (.device d))
    (hpath : ∀ i j, destination directory (path i) = destination directory (path j) → i = j)
    (h : (start before).run? directory path events = some b) :
    Delivers directory path events before b := by
  induction events using List.reverseRecOn generalizing b with
  | nil =>
      cases h
      exact delivers_start ht hd
  | append_singleton events s ih =>
      simp only [run?, List.foldlM_append, List.foldlM_cons, List.foldlM_nil] at h
      obtain ⟨b₁, hb₁, h⟩ := Option.bind_eq_some_iff.1 h
      exact (ih hb₁).step hpath (by simpa using h)

/-- After events of any number of output files at different locations, in any order: a file that
was kept holds all that was written to it, one that was given up is not there, whether or not
there was something before, and every other location is as it was, those of files that could not
be opened among them. No event for which there is an output file fails on the way. -/
theorem run?_delivered (ht : before.Unshared)
    (hd : ∀ i d, before.node? (destination directory (path i)) ≠ some (.device d))
    (hpath : ∀ i j, destination directory (path i) = destination directory (path j) → i = j)
    (h : (start before).run? directory path events = some b) :
    (∀ i, (i, .keep) ∈ events →
        b.tree.bytesAt? (destination directory (path i)) = some (written i events)) ∧
      (∀ i, (i, .drop) ∈ events → b.tree.node? (destination directory (path i)) = none) ∧
      (∀ l, (∀ i, l = destination directory (path i) → b.files i = .absent) →
        b.tree.node? l = before.node? l ∧ b.tree.snapshot? l = before.snapshot? l) ∧
      ∀ i e, (b.files i).allows e = true → ∃ b', b.step? directory path (i, e) = some b' := by
  have hb := delivers_of_run? ht hd hpath h
  refine ⟨fun i hi => ?_, fun i hi => ?_, hb.others, fun i e he => ?_⟩
  · have hout := hb.outcome i
    rwa [hb.kept i hi] at hout
  · have hout := hb.outcome i
    rwa [hb.dropped i hi] at hout
  · obtain ⟨p, t, hstep⟩ := Progress.exists_step? (hb.outcome i) he
    exact ⟨_, by simp only [step?, hstep, Option.map_some]; rfl⟩

/-- Paths of three output files: one that is new, one of a file that is there already, and one in
a directory that is not. -/
def reportPath : Fin 3 → String
  | 0 => "new.txt"
  | 1 => "old.txt"
  | 2 => "missing/report.txt"

/-- A tree with an old report. -/
def oldReport : FileTree where
  nodes := [(["old.txt"], .file 0 false)]
  contents := #[.ofText "old"]

/-- What is done with the three files. -/
def reportEvents : List (Fin 3 × Event) :=
  [(0, .create), (1, .create), (0, .write (.ofText "wh")), (2, .create),
    (1, .write (.ofText "half")), (1, .flush), (0, .write (.ofText "ole")), (1, .drop), (0, .keep)]

/-- The new report is whole, and the old one is gone with the half that should have replaced it. -/
theorem run?_delivered_reports :
    oldReport.Unshared ∧
      (∀ i d, oldReport.node? (destination [] (reportPath i)) ≠ some (.device d)) ∧
      (∀ i j, destination [] (reportPath i) = destination [] (reportPath j) → i = j) ∧
      ∃ b, (start oldReport).run? [] reportPath reportEvents = some b ∧
        b.tree.bytesAt? ["new.txt"] = some (.ofText "whole") ∧ b.tree.node? ["old.txt"] = none ∧
        b.tree.node? ["missing", "report.txt"] = none := by
  have hfile (l : Location) (id : FileId) (x : Bool)
      (h : oldReport.node? l = some (.file id x)) : l = ["old.txt"] ∧ id = 0 := by
    by_cases hl : l = ["old.txt"]
    · subst hl
      simp [node?, oldReport] at h
      exact ⟨rfl, h.1.symm⟩
    · by_cases hnil : l = [] <;>
        simp [node?, oldReport, hnil, List.lookup_cons, beq_false_of_ne hl] at h
  have ht : oldReport.Unshared :=
    ⟨fun l id x h => (hfile l id x h).2 ▸ by decide,
      fun l l' id x x' h h' => (hfile l id x h).1.trans (hfile l' id x' h').1.symm⟩
  have hd (i : Fin 3) (d : Device) :
      oldReport.node? (destination [] (reportPath i)) ≠ some (.device d) := by
    have hnode : ∀ i, oldReport.node? (destination [] (reportPath i)) = none ∨
        oldReport.node? (destination [] (reportPath i)) = some (.file 0 false) := by
      decide +kernel
    rcases hnode i with hi | hi <;> simp [hi]
  have hpath : ∀ i j, destination [] (reportPath i) = destination [] (reportPath j) → i = j := by
    decide +kernel
  obtain ⟨b, hb, habsent⟩ :
      ∃ b, (start oldReport).run? [] reportPath reportEvents = some b ∧ b.files 2 = .absent := by
    have hany : ((start oldReport).run? [] reportPath reportEvents).any
        (·.files 2 = .absent) = true := by decide +kernel
    simpa [Option.any_eq_true] using hany
  obtain ⟨hkept, hdropped, hothers, -⟩ := run?_delivered ht hd hpath hb
  have honly : ∀ i, ["missing", "report.txt"] = destination [] (reportPath i) → i = 2 := by
    decide +kernel
  have hmissing := (hothers ["missing", "report.txt"] fun i hi => honly i hi ▸ habsent).1
  have hwhole : written 0 reportEvents = .ofText "whole" := by decide +kernel
  exact ⟨ht, hd, hpath, b, hb, hwhole ▸ hkept 0 (by decide), hdropped 1 (by decide),
    hmissing.trans (by decide +kernel)⟩

end Batch

end Batch

end OutputFile

end TileFlow
