import TileFlow.Files.Artifact
import TileFlow.Proofs.Files.Tree

/-!
# Whole files or none

An output file that is kept holds all that was written to it, whatever went through the buffer and
whatever waited there. One that is given up leaves nothing behind. So an artifact is on disk with
its whole text, or is not on disk, or was never opened.

## Main definitions

* `OutputFile.Holds`: what was written to an output file so far.
* `Artifact.opened`, `Artifact.openedPair`: the paths that are opened for artifacts.

## Main results

* `Artifact.emit_spec`: an artifact is written as a whole or not at all.
* `Artifact.emitPair_spec`: two artifacts are written as a whole, both or none.
-/

namespace TileFlow

open FileTree

/-- Overwriting from the end appends. -/
theorem Bytes.overwrite_length (old new : Bytes) : old.overwrite old.length new = old ++ new := by
  cases new <;> simp [Bytes.overwrite]

namespace OutputFile

variable {o : OutputFile} {directory : Location} {t t' : FileTree} {l l' : Location} {id : FileId}
  {bytes new : Bytes} {ls : List Location}

/-- An output file is open at a location, and some bytes were written to it: what is in the file
and what waits, one after the other. -/
structure Holds (directory : Location) (o : OutputFile) (l : Location) (bytes : Bytes)
    (t : FileTree) : Prop where
  slash : Path.endsInSlash o.path = false
  place : t.place directory o.path = .ok (some l)
  written : ∃ id x through, o.outlet = .file id ∧ t.node? l = some (.file id x) ∧
    t.contents[id]? = some through ∧ through.length = o.offset ∧ through ++ o.pending = bytes

namespace Holds

/-- A change elsewhere is none to an open file. -/
theorem frame (h : Holds directory o l bytes t) (hc : ChangedAt l' t t') (hf : t.Free ls)
    (hl : l ∈ ls) (hl' : l' ∈ ls) (hne : l ≠ l') : Holds directory o l bytes t' where
  slash := h.slash
  place := hc.place h.place
  written := by
    obtain ⟨id, x, through, ho, hx, hb, hrest⟩ := h.written
    refine ⟨id, x, through, ho, (hc.node l hne).trans hx, ?_, hrest⟩
    rw [hc.contents_of_free hf hl' hl hne hx, hb]

/-- Bytes are written through behind those that are in the file. -/
theorem writeThrough_spec (h : Holds directory o l bytes t) (new : Bytes) :
    ∃ t', o.writeThrough new t = .ok ({ o with offset := o.offset + new.length }, t') ∧
      ChangedAt l t t' ∧ ∃ id x through, o.outlet = .file id ∧ t'.node? l = some (.file id x) ∧
        t'.contents[id]? = some (through ++ new) ∧ through.length = o.offset ∧
        through ++ o.pending = bytes := by
  obtain ⟨id, x, through, ho, hx, hb, hlen, hbytes⟩ := h.written
  refine ⟨t.writeAt id o.offset new, by simp [writeThrough, writeOut, ho], .writeAt hx _ _,
    id, x, through, ho, hx, ?_, hlen, hbytes⟩
  rw [FileTree.writeAt, Array.getElem?_modify, if_pos rfl, hb, ← hlen]
  simp [Bytes.overwrite_length]

/-- Nothing waits after a flush. -/
theorem flush_spec (h : Holds directory o l bytes t) :
    ∃ o' t', o.flush t = .ok (o', t') ∧ o'.path = o.path ∧ o'.pending = [] ∧
      ChangedAt l t t' ∧ Holds directory o' l bytes t' := by
  obtain ⟨t', hw, hc, id, x, through, ho, hx, hb, hlen, hbytes⟩ := h.writeThrough_spec o.pending
  refine ⟨{ o with offset := o.offset + o.pending.length, pending := [] }, t', by simp [flush, hw],
    rfl, rfl, hc, h.slash, hc.place h.place, id, x, _, ho, hx, hb, by simp [hlen], by simp [hbytes]⟩

/-- Bytes are written behind the others. -/
theorem write_spec (h : Holds directory o l bytes t) (new : Bytes) :
    ∃ o' t', o.write new t = .ok (o', t') ∧ o'.path = o.path ∧ ChangedAt l t t' ∧
      Holds directory o' l (bytes ++ new) t' := by
  -- a flush leaves the same bytes, and nothing that would go behind a piece that does not wait
  obtain ⟨o₁, t₁, hflush, hpath, hc₁, h₁, hroom⟩ : ∃ o₁ t₁,
      (if capacity < o.pending.length + new.length then o.flush t else .ok (o, t)) =
        .ok (o₁, t₁) ∧ o₁.path = o.path ∧ ChangedAt l t t₁ ∧
      Holds directory o₁ l bytes t₁ ∧ (capacity ≤ new.length → o₁.pending = []) := by
    by_cases hfull : capacity < o.pending.length + new.length
    · obtain ⟨o₁, t₁, hflush, hpath, hpending, hc, h₁⟩ := h.flush_spec
      exact ⟨o₁, t₁, by simp [hfull, hflush], hpath, hc, h₁, fun _ => hpending⟩
    · obtain ⟨id, x, -, -, hx, -⟩ := h.written
      refine ⟨o, t, by simp [hfull], rfl, .refl (by simp [hx]), h, fun hnew => ?_⟩
      exact List.eq_nil_of_length_eq_zero (by omega)
  by_cases hlarge : capacity ≤ new.length
  · obtain ⟨t', hw, hc, id, x, through, ho, hx, hb, hlen, hbytes⟩ := h₁.writeThrough_spec new
    have hpending := hroom hlarge
    rw [hpending, List.append_nil] at hbytes
    refine ⟨{ o₁ with offset := o₁.offset + new.length }, t',
      by simp only [write, hflush, if_pos hlarge, hw], hpath, hc₁.trans hc, h₁.slash,
      hc.place h₁.place, id, x, _, ho, hx, hb, by simp [hlen], ?_⟩
    simp [hpending, hbytes]
  · obtain ⟨id, x, through, ho, hx, hb, hlen, hbytes⟩ := h₁.written
    refine ⟨{ o₁ with pending := o₁.pending ++ new }, t₁,
      by simp only [write, hflush, if_neg hlarge], hpath, hc₁, h₁.slash, h₁.place, id, x, through,
      ho, hx, hb, hlen, ?_⟩
    rw [← hbytes, List.append_assoc]

/-- A file that is kept holds all that was written. -/
theorem keep_spec (h : Holds directory o l bytes t) :
    ∃ t', o.keep t = .ok t' ∧ ChangedAt l t t' ∧ t'.bytesAt? l = some bytes := by
  obtain ⟨o', t', hflush, -, hpending, hc, h'⟩ := h.flush_spec
  obtain ⟨id, x, through, -, hx, hb, -, hbytes⟩ := h'.written
  refine ⟨t', by simp [keep, hflush, Except.map], hc, ?_⟩
  rw [bytesAt?_of_file hx hb, ← hbytes, hpending, List.append_nil]

/-- A file that is given up is gone. -/
theorem discard_spec (h : Holds directory o l bytes t) :
    ChangedAt l t (o.discard directory t) ∧ (o.discard directory t).node? l = none := by
  obtain ⟨o', t', hflush, -, -, hc, h'⟩ := h.flush_spec
  obtain ⟨id, x, -, -, hx, -⟩ := h'.written
  have hne := (place_destination h.place).2
  have hd : o.discard directory t = t'.erase l := by
    simp [discard, hflush, unlink, hc.place h.place, hx, h.slash]
  rw [hd]
  exact ⟨hc.trans (.erase (by simp [hx])), by simp [node?_erase _ _ _ hne]⟩

end Holds

/-- A file that can be opened is opened empty at its destination. -/
theorem create_ok {path : String} (h : create directory path t = .ok (o, t')) (hf : t.Free ls)
    (hl : destination directory path ∈ ls) :
    ChangedAt (destination directory path) t t' ∧
      Holds directory o (destination directory path) [] t' := by
  rw [create] at h
  rcases hopen : t.openEmpty directory path with e | ⟨outlet, t₁⟩
  · simp [hopen] at h
  · simp only [hopen, Except.ok.injEq, Prod.mk.injEq] at h
    obtain ⟨rfl, rfl⟩ := h
    obtain ⟨hslash, hplace, hc, id, x, rfl, hx, hb⟩ := openEmpty_file hopen hf hl
    exact ⟨hc, hslash, hplace, id, x, [], rfl, hx, hb, rfl, rfl⟩

end OutputFile

namespace Artifact

variable {directory : Location} {a b : Artifact} {t t' : FileTree} {ls : List Location}
  {text text' : Except CompileError String}

/-- The paths that are opened for an artifact. -/
def opened (directory : Location) (a : Artifact) (t : FileTree) : List String :=
  if (a.openOutput directory t).isOk then [a.path] else []

/-- The paths that are opened for two artifacts that stay together. -/
def openedPair (directory : Location) (a : Artifact) (text : Except CompileError String)
    (b : Artifact) (t : FileTree) : List String :=
  match a.openOutput directory t with
  | .error _ => []
  | .ok (o, t) =>
    a.path ::
      match writeText o text t with
      | .error _ => []
      | .ok (_, t) => b.opened directory t

/-- Where an artifact is if it is on disk. -/
abbrev location (directory : Location) (a : Artifact) : Location :=
  destination directory a.path

/-- The output file of an artifact is opened empty. -/
theorem openOutput_ok {o : OutputFile} (h : a.openOutput directory t = .ok (o, t'))
    (hf : t.Free ls) (hl : a.location directory ∈ ls) :
    ChangedAt (a.location directory) t t' ∧
      OutputFile.Holds directory o (a.location directory) [] t' := by
  rw [openOutput] at h
  rcases hcreate : OutputFile.create directory a.path t with e | ⟨o₁, t₁⟩
  · simp [hcreate] at h
  · simp only [hcreate, Except.ok.injEq, Prod.mk.injEq] at h
    obtain ⟨rfl, rfl⟩ := h
    exact OutputFile.create_ok hcreate hf hl

/-- A text is written to an open file, if there is one. -/
theorem writeText_spec {o : OutputFile} {l : Location}
    (h : OutputFile.Holds directory o l [] t) (text : Except CompileError String) :
    (∃ e, text = .error e ∧ writeText o text t = .error e) ∨
      ∃ s o' t', text = .ok s ∧ writeText o text t = .ok (o', t') ∧ ChangedAt l t t' ∧
        OutputFile.Holds directory o' l (.ofText s) t' := by
  rcases text with e | s
  · exact .inl ⟨e, rfl, rfl⟩
  · obtain ⟨o', t', hw, -, hc, h'⟩ := h.write_spec (.ofText s)
    exact .inr ⟨s, o', t', rfl, by simp [writeText, hw, Except.mapError], hc, h'⟩

/-- An artifact is on disk with its whole text, or is gone, or was never opened. -/
theorem emit_spec (hf : t.Free ls) (hl : a.location directory ∈ ls)
    (text : Except CompileError String) :
    ∃ r t', a.emit directory text t = (r, t') ∧ t'.Free ls ∧
      (∀ l ∈ ls, l ≠ a.location directory → t'.bytesAt? l = t.bytesAt? l) ∧
      ((a.opened directory t = [] ∧ (∃ e, r = .error e) ∧ t' = t) ∨
        (a.opened directory t = [a.path] ∧
          ((∃ e, r = .error e ∧ t'.bytesAt? (a.location directory) = none) ∨
            (∃ s, text = .ok s ∧ r = .ok a ∧
              t'.bytesAt? (a.location directory) = some (.ofText s))))) := by
  rcases hopen : a.openOutput directory t with e | ⟨o, t₁⟩
  · exact ⟨.error e, t, by simp [emit, hopen], hf, fun _ _ _ => rfl,
      .inl ⟨by simp [opened, hopen, Except.isOk, Except.toBool], ⟨e, rfl⟩, rfl⟩⟩
  obtain ⟨hc₁, h₁⟩ := openOutput_ok hopen hf hl
  suffices hrest : ∃ r t', a.emit directory text t = (r, t') ∧
      ChangedAt (a.location directory) t t' ∧
      ((∃ e, r = .error e ∧ t'.bytesAt? (a.location directory) = none) ∨
        (∃ s, text = .ok s ∧ r = .ok a ∧
          t'.bytesAt? (a.location directory) = some (.ofText s))) by
    obtain ⟨r, t', he, hc, hend⟩ := hrest
    exact ⟨r, t', he, hc.free hf hl, fun l hl' hne => hc.bytesAt? hf hl hl' hne,
      .inr ⟨by simp [opened, hopen, Except.isOk, Except.toBool], hend⟩⟩
  rcases writeText_spec h₁ text with ⟨e, -, hw⟩ | ⟨s, o₂, t₂, htext, hw, hc₂, h₂⟩
  · obtain ⟨hc, hgone⟩ := h₁.discard_spec
    exact ⟨_, _, by simp only [emit, hopen, hw], hc₁.trans hc,
      .inl ⟨e, rfl, bytesAt?_of_none hgone⟩⟩
  · obtain ⟨t₃, hk, hc, hkept⟩ := h₂.keep_spec
    exact ⟨_, t₃, by simp only [emit, hopen, hw, keepOutput, hk], (hc₁.trans hc₂).trans hc,
      .inr ⟨s, htext, rfl, hkept⟩⟩

/-- Two artifacts that stay together are both on disk with their whole texts, or none of them is
but for one that was never opened. -/
theorem emitPair_spec (hf : t.Free ls) (ha : a.location directory ∈ ls)
    (hb : b.location directory ∈ ls) (hne : a.location directory ≠ b.location directory)
    (text text' : Except CompileError String) :
    ∃ r t', a.emitPair directory text b text' t = (r, t') ∧ t'.Free ls ∧
      (∀ l ∈ ls, l ≠ a.location directory → l ≠ b.location directory →
        t'.bytesAt? l = t.bytesAt? l) ∧
      ((a.openedPair directory text b t = [] ∧ (∃ e, r = .error e) ∧ t' = t) ∨
        (a.openedPair directory text b t = [a.path] ∧ (∃ e, r = .error e) ∧
          t'.bytesAt? (a.location directory) = none ∧
          t'.bytesAt? (b.location directory) = t.bytesAt? (b.location directory)) ∨
        (a.openedPair directory text b t = [a.path, b.path] ∧
          ((∃ e, r = .error e ∧ t'.bytesAt? (a.location directory) = none ∧
              t'.bytesAt? (b.location directory) = none) ∨
            (∃ s s', text = .ok s ∧ text' = .ok s' ∧ r = .ok (a, b) ∧
              t'.bytesAt? (a.location directory) = some (.ofText s) ∧
              t'.bytesAt? (b.location directory) = some (.ofText s'))))) := by
  rcases hopen : a.openOutput directory t with e | ⟨o, t₁⟩
  · exact ⟨.error e, t, by simp [emitPair, hopen], hf, fun _ _ _ _ => rfl,
      .inl ⟨by simp [openedPair, hopen], ⟨e, rfl⟩, rfl⟩⟩
  obtain ⟨hc₁, h₁⟩ := openOutput_ok hopen hf ha
  rcases writeText_spec h₁ text with ⟨e, -, hw⟩ | ⟨s, o₂, t₂, htext, hw, hc₂, h₂⟩
  · obtain ⟨hc, hgone⟩ := h₁.discard_spec
    have hc := hc₁.trans hc
    exact ⟨.error e, _, by simp only [emitPair, hopen, hw], hc.free hf ha,
      fun l hl hla _ => hc.bytesAt? hf ha hl hla,
      .inr (.inl ⟨by simp [openedPair, hopen, hw], ⟨e, rfl⟩, bytesAt?_of_none hgone,
        hc.bytesAt? hf ha hb hne.symm⟩)⟩
  have hc₂ := hc₁.trans hc₂
  have hf₂ := hc₂.free hf ha
  rcases hopen' : b.openOutput directory t₂ with e | ⟨o', t₃⟩
  · obtain ⟨hc, hgone⟩ := h₂.discard_spec
    have hc := hc₂.trans hc
    exact ⟨.error e, _, by simp only [emitPair, hopen, hw, hopen'], hc.free hf ha,
      fun l hl hla _ => hc.bytesAt? hf ha hl hla,
      .inr (.inl ⟨by simp [openedPair, hopen, hw, opened, hopen', Except.isOk, Except.toBool],
        ⟨e, rfl⟩, bytesAt?_of_none hgone, hc.bytesAt? hf ha hb hne.symm⟩)⟩
  obtain ⟨hc₃, h₃⟩ := openOutput_ok hopen' hf₂ hb
  have hopened : a.openedPair directory text b t = [a.path, b.path] := by
    simp [openedPair, hopen, hw, opened, hopen', Except.isOk, Except.toBool]
  rcases writeText_spec h₃ text' with ⟨e, -, hw'⟩ | ⟨s', o₄, t₄, htext', hw', hc₄, h₄⟩
  · -- the second is given up first, and the first is still open then
    obtain ⟨hcb, hgoneb⟩ := h₃.discard_spec
    have hcb := hc₃.trans hcb
    have hfb := hcb.free hf₂ hb
    obtain ⟨hca, hgonea⟩ := (h₂.frame hcb hf₂ ha hb hne).discard_spec
    refine ⟨.error e, _, by simp only [emitPair, hopen, hw, hopen', hw'], hca.free hfb ha,
      fun l hl hla hlb => ?_, .inr (.inr ⟨hopened, .inl ⟨e, rfl, bytesAt?_of_none hgonea, ?_⟩⟩)⟩
    · rw [hca.bytesAt? hfb ha hl hla, hcb.bytesAt? hf₂ hb hl hlb, hc₂.bytesAt? hf ha hl hla]
    · rw [hca.bytesAt? hfb ha hb hne.symm, bytesAt?_of_none hgoneb]
  · have hcb := hc₃.trans hc₄
    have hf₄ := hcb.free hf₂ hb
    obtain ⟨t₅, hk, hc₅, hkept⟩ := (h₂.frame hcb hf₂ ha hb hne).keep_spec
    have hf₅ := hc₅.free hf₄ ha
    obtain ⟨t₆, hk', hc₆, hkept'⟩ := (h₄.frame hc₅ hf₄ hb ha hne.symm).keep_spec
    refine ⟨.ok (a, b), t₆,
      by simp only [emitPair, hopen, hw, hopen', hw', keepOutput, hk, hk'], hc₆.free hf₅ hb,
      fun l hl hla hlb => ?_,
      .inr (.inr ⟨hopened, .inr ⟨s, s', htext, htext', rfl, ?_, hkept'⟩⟩)⟩
    · rw [hc₆.bytesAt? hf₅ hb hl hlb, hc₅.bytesAt? hf₄ ha hl hla, hcb.bytesAt? hf₂ hb hl hlb,
        hc₂.bytesAt? hf ha hl hla]
    · rw [hc₆.bytesAt? hf₅ hb ha hne, hkept]

end Artifact

end TileFlow
