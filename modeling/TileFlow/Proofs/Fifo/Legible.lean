import Mathlib.Algebra.Group.Nat.Defs
import TileFlow.Proofs.Fifo.Process
import TileFlow.Proofs.Fifo.Streams
import TileFlow.Proofs.Stage.Legible

/-!
# What FIFOs become can be loaded

A FIFO becomes locks and buffers at its own place, and its accesses become uses of these locks. The
uses come after the definitions if the FIFOs of a device come before its accesses. The loops of
registered processes make further accesses, in cores: they come after the FIFOs if the cores do.

The parts of a FIFO use the values of its tiles, which are known where it is, and define values with
names made from its own. Its accesses come after it and may use the locks that are defined there.
The channels of its stream are counted and not chosen: they fit as long as there are not too many
streams and FIFOs.

## Main definitions

* `Program.AfterFifos`: an operation that comes after all FIFOs of its device.
* `Program.FifosFirst`: every access and every core does.
* `Program.streaming`: the operations that have streams.
* `FifoSite`: a place for the parts of a FIFO in a legible program.

## Main results

* `Program.FifosFirst.edits`: edits that give no operation the name of an access or a core.
* `registerProcesses_legible`: the loops of registered processes.
* `FifoSite.insertPart`: one part.
* `lowerObjectFifo_legible`: a FIFO and its accesses.
* `lowerObjectFifos_legible`: the stage.
-/

/-! ## Accesses after FIFOs -/

namespace TileFlow

open TileFlow.Action Source

variable {rule : EditRule} {p q r s : Program} {id x device : OpId} {op : Operation}
  {names : List String}

/-- The operations that come after the FIFOs. -/
def fifoUserNames : List String :=
  ["aie.objectfifo.acquire", "aie.objectfifo.release", "aie.core"]

namespace Program

/-- Whether an operation comes after all FIFOs of the device that it is in, if any. -/
def AfterFifos (p : Program) (x : OpId) : Prop :=
  ∀ device ∈ p.devices, x ∈ p.walkIn device → ∀ fifo ∈ p.findIn device "aie.objectfifo",
    p.Precedes fifo x

/-- Whether in every device the FIFOs come before the accesses and the cores. -/
def FifosFirst (p : Program) : Prop :=
  ∀ x ∈ p.walk, (p.op x).name ∈ fifoUserNames → p.AfterFifos x

/-- What comes after the FIFOs still does when edits make no FIFO. -/
theorem AfterFifos.edits (h : p.AfterFifos x) (hp : p.Sound) (hspares : rule.SparesDevices)
    (hrule : rule.Names names) (hfifo : "aie.objectfifo" ∉ names) (hedits : p.Edits rule q)
    (hlt : x < p.slots.size) (hx : x ∈ q.walk) : q.AfterFifos x := by
  intro device hdevice hbelow fifo hmem
  have hev := hedits.evolves hp
  have hwalk := mem_walk_of_mem_devices hdevice
  have hold := hedits.findIn_of_old (hrule.keeps_ne hfifo) hp hwalk hmem
  exact hedits.precedes hp
    (h device ((hedits.mem_devices hspares hp).1 hdevice)
      (hev.mem_walkIn hwalk hbelow hlt) fifo hold)
    (hev.sound.toWellFormed.mem_walk_of_walkIn hwalk (List.mem_filter.1 hmem).1) hx

/-- Edits keep the FIFOs first if new accesses and cores come after them. -/
theorem FifosFirst.edits_of_new (h : p.FifosFirst) (hp : p.Sound) (hspares : rule.SparesDevices)
    (hrule : rule.Names names) (hfifo : "aie.objectfifo" ∉ names) (hedits : p.Edits rule q)
    (hnew : ∀ x ∈ q.walk, (q.op x).name ∈ fifoUserNames →
      (x < p.slots.size ∧ (p.op x).name = (q.op x).name) ∨ q.AfterFifos x) : q.FifosFirst := by
  intro x hx hname
  rcases hnew x hx hname with ⟨hlt, hsame⟩ | hafter
  · have hold := (hedits.evolves hp).walk x hx hlt
    exact (h x hold (hsame ▸ hname)).edits hp hspares hrule hfifo hedits hlt hx
  · exact hafter

/-- Edits keep the FIFOs first if they make no FIFO, access or core. -/
theorem FifosFirst.edits (h : p.FifosFirst) (hp : p.Sound) (hspares : rule.SparesDevices)
    (hrule : rule.Names names) (hnames : ∀ name ∈ "aie.objectfifo" :: fifoUserNames, name ∉ names)
    (hedits : p.Edits rule q) : q.FifosFirst :=
  h.edits_of_new hp hspares hrule (hnames _ List.mem_cons_self) hedits fun x hx hname =>
    .inl (hedits.old_of_name (hrule.keeps_ne (hnames _ (List.mem_cons_of_mem _ hname))) hp
      ((hedits.sound hp).created x hx) rfl)

/-- A new operation next to one that comes after the FIFOs comes after them, too. -/
theorem Places.afterFifos (h : p.Places rule x op id q) (hp : p.Sound)
    (hspares : rule.SparesDevices) (hrule : rule.Names names) (hfifo : "aie.objectfifo" ∉ names)
    (hx : x ∉ p.devices) (hafter : p.AfterFifos x) : q.AfterFifos id := by
  intro device hdevice hbelow fifo hmem
  have hdevicep := (h.edits.mem_devices hspares hp).1 hdevice
  have hin : x ∈ p.walkIn device :=
    (h.near device (mem_walk_of_mem_devices hdevicep) hbelow).resolve_left fun heq =>
      hx (heq ▸ hdevicep)
  have hold := h.edits.findIn_of_old (hrule.keeps_ne hfifo) hp
    (mem_walk_of_mem_devices hdevice) hmem
  exact h.follows fifo (hafter device hdevicep hin fifo hold)

/-- What is below an operation that comes after the FIFOs of its device comes after them, too. -/
theorem AfterFifos.below {a : OpId} (h : p.AfterFifos a) (hp : p.Sound) (ha : a ∈ p.walk)
    (hdevices : a ∉ p.devices) (hx : x ∈ p.walkIn a) : p.AfterFifos x := by
  intro device hdevice hbelow fifo hmem
  have hroot := (mem_devices.1 hdevice).1
  obtain ⟨g, hg, hbelowg⟩ := exists_below (mem_walk_of_mem_roots hroot)
  obtain ⟨k, hk, hbelowk⟩ := exists_below ha
  have hin : a = device ∨ a ∈ p.walkIn device := by
    rw [walkIn, hbelowk] at hx
    rw [walkIn, hbelowg] at hbelow ⊢
    exact hp.distinct.parent_below hroot hg hbelow hk hx
  have hina : a ∈ p.walkIn device := hin.resolve_left fun heq => hdevices (heq ▸ hdevice)
  exact (h device hdevice hina fifo hmem).trans hp (hp.precedes_of_walkIn ha hx)

end Program

/-! ### Registered processes -/

/-- An operation next to which accesses may be put. -/
structure Program.AccessPlace (p : Program) (x : OpId) : Prop where
  inBody : x ∈ p.walk
  notDevice : (p.op x).is "aie.device" = false
  after : p.AfterFifos x

namespace Program

/-- What is accessed in a core is no device. -/
theorem AccessPlace.notMem_devices (h : p.AccessPlace x) : x ∉ p.devices := fun hmem => by
  simpa [h.notDevice] using (mem_devices.1 hmem).2

/-- An access stays in its core while processes are registered. -/
theorem AccessPlace.extends (h : p.AccessPlace x) (hp : p.Sound) (hq : p.Extends .processes q) :
    q.AccessPlace x where
  inBody := hq.kept x h.inBody
  notDevice := (hq.edits.sameHeader hp (fun _ _ _ hop => hop) (hp.created x h.inBody)).is _ ▸
    h.notDevice
  after := h.after.edits hp EditRule.processes_sparesDevices EditRule.processes_names (by decide)
    hq.edits (hp.created x h.inBody) (hq.kept x h.inBody)

/-- Accesses may be put next to what is put there. -/
theorem Places.accessPlace (h : p.Places .processes x op id q) (hp : p.Sound) (hx : p.AccessPlace x)
    (hop : op.is "aie.device" = false) (hid : id ∈ q.walk) : q.AccessPlace id where
  inBody := hid
  notDevice := (h.header.is _).trans hop
  after := h.afterFifos hp EditRule.processes_sparesDevices EditRule.processes_names (by decide)
    hx.notMem_devices hx.after

/-- A new operation leaves the FIFOs first if it is no access or core, or comes after them. -/
theorem FifosFirst.places (h : p.FifosFirst) (hp : p.Sound) (hq : p.Places .processes x op id q)
    (hafter : op.name ∈ fifoUserNames → q.AfterFifos id) : q.FifosFirst := by
  refine h.edits_of_new hp EditRule.processes_sparesDevices EditRule.processes_names (by decide)
    hq.edits fun y hy hname => ?_
  rcases hq.only y hy with hold | rfl
  · have hlt := hp.created y hold
    exact .inl ⟨hlt, (hq.edits.sameHeader hp (fun _ _ _ hop => hop) hlt).name.symm⟩
  · exact .inr (hafter (hq.header.name ▸ hname))

end Program

/-- The core on the tile of a FIFO comes after the FIFOs of its device. -/
theorem coreFor_legible {tile : String} {core : OpId} (hp : p.Legible) (hfirst : p.FifosFirst)
    (hdevice : device ∈ p.devices) (hlex : Token.IsLexeme (.value tile))
    (hknown : p.KnownAt device tile ∨ ∃ d ∈ p.interval device, (p.op d).result = some tile)
    (huses : p.FifoUses tile) (h : runOn (coreFor device tile) p = (.ok core, q)) :
    p.Extends .processes q ∧ q.FifosFirst ∧ q.AccessPlace core := by
  have hwalk := Program.mem_walk_of_mem_devices hdevice
  have hedits := coreFor_edits huses h
  rw [coreFor, get_bind_ok] at h
  split at h
  · rename_i found hfound
    obtain ⟨rfl, rfl⟩ := pure_ok.1 h
    obtain ⟨hin, hname⟩ := List.mem_filter.1 (List.mem_of_find?_eq_some hfound)
    have hbody := hp.sound.toWellFormed.mem_walk_of_walkIn hwalk hin
    refine ⟨.refl hp, hfirst, hbody, Operation.not_is_of_is hname (by decide), ?_⟩
    exact hfirst found hbody (by simp [beq_iff_eq.1 hname, fifoUserNames])
  · obtain ⟨core', r, hcore, h⟩ := bind_ok.1 h
    obtain ⟨last, s, hend, h⟩ := bind_ok.1 h
    obtain ⟨rfl, rfl⟩ := pure_ok.1 h
    obtain ⟨hr, hplace⟩ := hp.append_ok hcore
      (appendPart_edits rfl (by simp [processNames]) (fun v hv => by
        cases List.mem_singleton.1 hv
        exact huses) hcore)
      (Operation.isLegible_of_operands true (isLexeme_of_mem_stageIdents _ (by simp [stageIdents]))
        (by decide) fun a ha => by
        rw [List.mem_singleton.1 ha]
        exact Attribute.isWrittenOperand_value hlex) rfl
      fun _ v hv => by
        cases List.mem_singleton.1 hv
        exact hknown
    obtain ⟨hin, hlast⟩ := hplace hwalk
    have hbody : core' ∈ r.walk := (hlast device List.mem_cons_self).right_mem
    -- A new core is at the end of the device.
    have hafter : r.AfterFifos core' := fun other hother hbelow fifo hmem => by
      have hspares := EditRule.processes_sparesDevices
      have hdevicer := (hr.edits.mem_devices hspares hp.sound).2 hdevice
      obtain rfl : other = device := Program.device_eq_of_within hr.legible.sound.toWellFormed
        (Program.mem_devices.1 hother).1 (Program.mem_devices.1 hdevicer).1 (.inr hbelow) (.inr hin)
      have hold := hr.edits.findIn_of_old (EditRule.processes_names.keeps_ne (by decide)) hp.sound
        (hr.kept _ hwalk) hmem
      exact hlast fifo (List.mem_cons_of_mem _ (List.mem_filter.1 hold).1)
    have hcoreplace : r.AccessPlace core' := ⟨hbody, (hr.header.is _).trans rfl, hafter⟩
    obtain ⟨hs, -⟩ := hr.legible.append_ok hend
      (appendPart_edits rfl (by simp [processNames]) (fun v hv => absurd hv List.not_mem_nil) hend)
      (Operation.isLegible_of_operands false (isLexeme_of_mem_stageIdents _ (by simp [stageIdents]))
        (by decide) fun _ ha =>
        absurd ha List.not_mem_nil)
      rfl fun _ _ hv => absurd hv List.not_mem_nil
    have hfirstr := hfirst.places hp.sound hr fun _ => hafter
    exact ⟨hr.toExtends.trans hs.toExtends, hfirstr.places hr.legible.sound hs
      fun hname => absurd hname (by decide), hcoreplace.extends hr.legible.sound hs.toExtends⟩

/-- A loop in a core is a place for accesses. -/
theorem appendToCore_legible {core loop : OpId} {count : Int} (hp : p.Legible)
    (hfirst : p.FifosFirst) (hcore : p.AccessPlace core) (hcount : Integer.Fits count)
    (h : runOn (appendToCore core (loopOf count)) p = (.ok loop, q)) :
    p.Extends .processes q ∧ q.FifosFirst ∧ q.AccessPlace loop := by
  have hedits := appendToCore_edits rfl (by simp [processNames, loopOf])
    (fun v hv => by simp [loopOf] at hv) h
  have hop : (loopOf count).IsLegible :=
    Operation.isLegible_of_operands true (isLexeme_of_mem_stageIdents _ (by simp [stageIdents]))
      (by decide) fun a ha => by
      simp only [List.mem_cons, List.not_mem_nil, or_false] at ha
      rcases ha with rfl | rfl | rfl
      · exact (Attribute.isWritten_int (by decide)).operand
      · exact (Attribute.isWritten_int hcount).operand
      · exact (Attribute.isWritten_int (by decide)).operand
  -- Wherever the loop is put, it is next to a place for accesses.
  have hnext : ∃ x, p.AccessPlace x ∧ p.Places .processes x (loopOf count) loop q ∧
      loop ∈ q.walk := by
    have happend : runOn (Action.append core (loopOf count)) p = (.ok loop, q) →
        ∃ x, p.AccessPlace x ∧ p.Places .processes x (loopOf count) loop q ∧ loop ∈ q.walk := by
      intro hrun
      obtain ⟨hq, hplace⟩ := hp.append_ok hrun hedits hop rfl fun _ v hv => by
        simp [loopOf] at hv
      exact ⟨core, hcore, hq, ((hplace hcore.inBody).2 core List.mem_cons_self).right_mem⟩
    rw [appendToCore, get_bind_ok] at h
    split at h
    · rename_i last hlast
      split at h
      · rename_i hend
        have hin : last ∈ p.walkIn core :=
          Program.mem_walkIn_of_mem_children (List.mem_of_getLast? hlast)
        have hbody := hp.sound.toWellFormed.mem_walk_of_walkIn hcore.inBody hin
        obtain ⟨hq, hbefore⟩ := hp.insertBefore_ok hbody h hedits hop
          (fun v hv => by simp [loopOf] at hv) (Program.fresh_of_none rfl) fun hne => absurd rfl hne
        exact ⟨last, ⟨hbody, Operation.not_is_of_is hend (by decide),
          hcore.after.below hp.sound hcore.inBody hcore.notMem_devices hin⟩, hq, hbefore.left_mem⟩
      · exact happend h
    · exact happend h
  obtain ⟨x, hx, hq, hbody⟩ := hnext
  exact ⟨hq.toExtends, hfirst.places hp.sound hq
    fun hname => absurd hname (by simp [loopOf, fifoUserNames]),
      hq.accessPlace hp.sound hx rfl hbody⟩

/-- An operation that is put into the loop of a process and uses no values. -/
theorem appendToLoop_legible {loop : OpId} {name : String} {operands : List Attribute}
    (hp : p.Legible) (hfirst : p.FifosFirst) (hloop : p.AccessPlace loop)
    (hname : name ∈ processNames) (hlex : Token.IsLexeme (.ident name))
    (hoperands : ∀ a ∈ operands, a.IsWrittenOperand ∧ ∀ v, a ≠ .value v)
    (h : runOn (Action.append loop { name, operands }) p = (.ok id, q)) :
    p.Extends .processes q ∧ q.FifosFirst ∧ q.AccessPlace loop := by
  have hfree : ∀ name ∈ processNames, name ∉ Operation.namingNames ∧ name ≠ "aie.device" := by
    decide
  obtain ⟨hq, hplace⟩ := hp.append_ok h
    (appendPart_edits rfl hname (fun v hv => absurd rfl ((hoperands _ hv).2 v)) h)
    (Operation.isLegible_of_operands false hlex (hfree name hname).1 fun a ha => (hoperands a ha).1)
    rfl fun _ v hv => absurd rfl ((hoperands _ hv).2 v)
  have hid := ((hplace hloop.inBody).2 loop List.mem_cons_self).right_mem
  have hnew : q.AccessPlace id := hq.accessPlace hp.sound hloop
    (beq_eq_false_iff_ne.2 (hfree name hname).2) hid
  exact ⟨hq.toExtends, hfirst.places hp.sound hq fun _ => hnew.after,
    hloop.extends hp.sound hq.toExtends⟩

/-- The loop of a process comes after the FIFOs of its device. -/
theorem registerProcess_legible {registration : OpId} (hp : p.Legible) (hfirst : p.FifosFirst)
    (hdevice : device ∈ p.devices) (hlt : registration < p.slots.size)
    (hname : (p.op registration).is "aie.objectfifo.register_process" = true)
    (h : runOn (registerProcess device registration) p = (.ok (), q)) :
    ∃ r, p.Extends .processes r ∧ q = r.erase registration ∧ q.FifosFirst := by
  have hop := (hp.legible registration hlt).toIsWritten
  rw [registerProcess, get_bind_ok] at h
  obtain ⟨fifo, hfifo, h⟩ := orFail_bind_ok.1 h
  obtain ⟨function, hfunction, h⟩ := orFail_bind_ok.1 h
  obtain ⟨fifoOp, hfound, h⟩ := orFail_bind_ok.1 h
  obtain ⟨side, -, h⟩ := orFail_bind_ok.1 h
  obtain ⟨tile, htile, h⟩ := orFail_bind_ok.1 h
  obtain ⟨core, p₁, hcore, h⟩ := bind_ok.1 h
  obtain ⟨loop, p₂, hloop, h⟩ := bind_ok.1 h
  obtain ⟨_, p₃, hacquire, h⟩ := bind_ok.1 h
  obtain ⟨_, p₄, hcall, h⟩ := bind_ok.1 h
  obtain ⟨_, r, hrelease, h⟩ := bind_ok.1 h
  rw [runOn_erase, Prod.mk.injEq] at h
  obtain ⟨-, rfl⟩ := h
  -- The tile of the FIFO is defined before the end of the device.
  have hwalk := Program.mem_walk_of_mem_devices hdevice
  obtain ⟨hin, his⟩ := List.mem_filter.1 (List.mem_of_find?_eq_some hfound)
  have hbody := hp.sound.toWellFormed.mem_walk_of_walkIn hwalk hin
  have huses := Operation.mem_operands_of_value htile
  have hknown := (hp.scope fifoOp hbody tile huses).of_walkIn hp.sound hwalk hin
  have haccess : ∀ a ∈ (accessOf "aie.objectfifo.acquire" fifo side).operands,
      a.IsWrittenOperand ∧ ∀ v, a ≠ .value v := fun a ha => by
    simp only [accessOf, List.mem_cons, List.not_mem_nil, or_false] at ha
    rcases ha with rfl | rfl | rfl
    · exact ⟨(Attribute.isWritten_symbol (hop.operandSymbol? hfifo)).operand, fun _ => by simp⟩
    · refine ⟨(Attribute.isWritten_ident ?_).operand, fun _ => by simp⟩
      cases side <;> exact isLexeme_of_mem_stageIdents _ (by simp [stageIdents, Side.name])
    · exact ⟨(Attribute.isWritten_int (by decide)).operand, fun _ => by simp⟩
  have hcount : Integer.Fits (((p.op registration).intAttr? "count").getD 1) := by
    rcases hattr : (p.op registration).intAttr? "count" with _ | n
    · exact (by decide : Integer.Fits 1)
    · exact hop.intAttr? hattr
  obtain ⟨h₁, hfirst₁, hplace₁⟩ := coreFor_legible hp hfirst hdevice
    ((hp.of_walk hbody).operandValue? htile) hknown
    ⟨fifoOp, hp.sound.lt_size_of_walkIn hin, his, huses⟩ hcore
  obtain ⟨h₂, hfirst₂, hplace₂⟩ :=
    appendToCore_legible h₁.legible hfirst₁ hplace₁ hcount hloop
  obtain ⟨h₃, hfirst₃, hplace₃⟩ := appendToLoop_legible h₂.legible hfirst₂ hplace₂
    (by simp [processNames]) (isLexeme_of_mem_stageIdents _ (by simp [stageIdents]))
    haccess hacquire
  obtain ⟨h₄, hfirst₄, hplace₄⟩ := appendToLoop_legible h₃.legible hfirst₃ hplace₃
    (by simp [processNames]) (isLexeme_of_mem_stageIdents _ (by simp [stageIdents])) (fun a ha => by
      rw [List.mem_singleton.1 ha]
      exact ⟨(Attribute.isWritten_symbol (hop.operandSymbol? hfunction)).operand, fun _ => by simp⟩)
        hcall
  obtain ⟨h₅, hfirst₅, -⟩ := appendToLoop_legible h₄.legible hfirst₄ hplace₄
    (by simp [processNames]) (isLexeme_of_mem_stageIdents _ (by simp [stageIdents]))
    haccess hrelease
  have hr := (((h₁.trans h₂).trans h₃).trans h₄).trans h₅
  have hltr := Nat.lt_of_lt_of_le hlt (hr.edits.size_le hp.sound)
  have herase : r.Edits .processes (r.erase registration) := .single (.erase _ hltr
    (((hr.edits.sameHeader hp.sound (fun _ _ _ hop => hop) hlt).is _).trans hname))
  refine ⟨r, hr, rfl, hfirst₅.edits_of_new hr.legible.sound EditRule.processes_sparesDevices
    EditRule.processes_names (by decide) herase fun x hx _ => .inl ⟨?_, by rw [Program.op_erase]⟩⟩
  rw [← Program.size_erase r registration]
  exact (herase.sound hr.legible.sound).created x hx

/-- The loops of registered processes come after the FIFOs, and can be written. -/
theorem registerProcesses_legible (hp : p.Legible) (hfirst : p.FifosFirst)
    (h : runOn Stage.registerObjectFifos.action p = (.ok (), q)) : q.Legible ∧ q.FifosFirst :=
  Stage.legible_replace EditRule.processes_sparesDevices EditRule.processes_dissolves
    EditRule.processes_keepsValues (by decide) hp hfirst h
    fun _ _ _ _ hr hfirst _ hdevice hlt hname _ _ hrun =>
      registerProcess_legible hr hfirst hdevice hlt hname hrun

end TileFlow

/-! ## Parts and accesses of FIFOs -/

namespace TileFlow

open TileFlow.Action Source

variable {rule : EditRule} {p q r : Program} {id x device fifo : OpId} {op : Operation}
  {shape : FifoShape} {names : List String}

/-! ### Streams and what becomes one -/

namespace Program

/-- The flows and the FIFOs of a program. -/
def streaming (p : Program) : List OpId :=
  p.walk.filter fun id => decide ((p.op id).name ∈ streamNames)

/-- The operations that carry streams. -/
theorem mem_streaming : id ∈ p.streaming ↔ id ∈ p.walk ∧ (p.op id).name ∈ streamNames := by
  rw [streaming, List.mem_filter, decide_eq_true_iff]

/-- No operation is listed twice among those that carry streams. -/
theorem Sound.nodup_streaming (hp : p.Sound) : p.streaming.Nodup :=
  hp.distinct.sublist List.filter_sublist

/-- Edits that make no flow and no FIFO. -/
theorem Edits.streaming_subset (hrule : rule.Names names) (hp : p.Sound)
    (hnames : ∀ name ∈ streamNames, name ∉ names) (h : p.Edits rule q) :
    q.streaming ⊆ p.streaming := fun id hid => by
  obtain ⟨hq, hname⟩ := mem_streaming.1 hid
  obtain ⟨hlt, hold⟩ :=
    h.old_of_name (hrule.keeps_ne (hnames _ hname)) hp ((h.sound hp).created id hq) rfl
  exact mem_streaming.2 ⟨(h.evolves hp).walk id hq hlt, hold ▸ hname⟩

/-- A new operation is at most one more flow or FIFO. -/
theorem Places.mem_streaming (h : p.Places .fifoParts x op id q) (hp : p.Sound) {y : OpId}
    (hy : y ∈ q.streaming) : y ∈ p.streaming ∨ (y = id ∧ op.name ∈ streamNames) := by
  obtain ⟨hq, hname⟩ := Program.mem_streaming.1 hy
  rcases h.only y hq with hold | rfl
  · have hheader := h.edits.sameHeader hp (fun _ _ _ hop => hop) (hp.created y hold)
    exact .inl (Program.mem_streaming.2 ⟨hold, hheader.name ▸ hname⟩)
  · exact .inr ⟨rfl, h.header.name ▸ hname⟩

/-- The channels in use on a tile are fewer than the flows and FIFOs, if there is a FIFO. -/
theorem dmaChannelsInUse_lt (hp : p.Sound) (hdevice : device ∈ p.walk)
    (hfifo : fifo ∈ p.walk) (his : (p.op fifo).is "aie.objectfifo" = true) (tile : Tile)
    (e : StreamEnd) : p.dmaChannelsInUse device tile e < p.streaming.length := by
  have hnodup := hp.toWellFormed.nodup_findIn hdevice "aie.flow"
  have hflow : ∀ id ∈ p.findIn device "aie.flow", id ∈ p.streaming ∧ id ≠ fifo := fun id hid => by
    obtain ⟨hin, hname⟩ := List.mem_filter.1 hid
    refine ⟨mem_streaming.2 ⟨hp.toWellFormed.mem_walk_of_walkIn hdevice hin, ?_⟩, ?_⟩
    · rw [beq_iff_eq.1 hname]
      decide
    · rintro rfl
      exact absurd (Operation.is_inj hname his) (by decide)
  have hmem : fifo ∈ p.streaming := mem_streaming.2 ⟨hfifo, by rw [beq_iff_eq.1 his]; decide⟩
  have hsub : p.findIn device "aie.flow" ⊆ p.streaming.erase fifo := fun id hid =>
    (List.mem_erase_of_ne (hflow id hid).2).2 (hflow id hid).1
  have hlength := (List.subperm_of_subset hnodup hsub).length_le
  rw [List.length_erase_of_mem hmem] at hlength
  have hpos := List.length_pos_of_mem hmem
  have hfilter : p.dmaChannelsInUse device tile e ≤ (p.findIn device "aie.flow").length :=
    List.length_filter_le _ _
  omega

end Program

/-! ### Parts -/

/-- A value that is known in a legible program can be written. -/
theorem Program.KnownAt.isLexeme {v : String} (h : p.KnownAt x v) (hp : p.Legible) :
    Token.IsLexeme (.value v) := by
  obtain ⟨d, hd, hdv⟩ := h
  exact (hp.of_walk hd.left_mem).result v hdv

/-- A value that names a tile names one with coordinates that can be written. -/
theorem Program.Legible.tileOf?_fits {v : String} {t : Tile} (hp : p.Legible)
    (h : p.tileOf? v = some t) : Integer.Fits t.column ∧ Integer.Fits t.row := by
  obtain ⟨id, hdef, -, htile⟩ := Program.tileOf?_eq_some.1 h
  have hop := hp.of_walk (Program.mem_walk_of_definingOp? hdef).1
  rw [Operation.tile?] at htile
  split at htile
  · rename_i column row hcolumn hrow
    cases htile
    exact ⟨hop.operandInt? hcolumn, hop.operandInt? hrow⟩
  · cases htile

/-- A part that defines a value, with integers next to the tile and a number under a key. -/
def FifoShape.part (shape : FifoShape) (name suffix value key : String)
    (ints : List Int) (n : Int) :
    Operation where
  name := name
  result := some value
  operands := .value shape.consumer :: ints.map .int
  attributes := .ofList [(key, .int n), ("sym_name", .str (shape.name ++ suffix))]

/-- A part of a FIFO can be written when all it is made of can. -/
theorem FifoShape.part_isLegible {name suffix value key : String} {ints : List Int} {n : Int}
    (hname : Token.IsLexeme (.ident name)) (hfree : name ∉ Operation.namingNames)
    (hvalue : Token.IsLexeme (.value value)) (hconsumer : Token.IsLexeme (.value shape.consumer))
    (hints : ∀ i ∈ ints, Integer.Fits i) (hkey : Token.IsLexeme (.ident key))
    (hn : Integer.Fits n) : (shape.part name suffix value key ints n).IsLegible where
  name := hname
  result v hv := by
    cases hv
    exact hvalue
  operands a ha := by
    rcases List.mem_cons.1 ha with rfl | ha
    · exact Attribute.isWrittenOperand_value hconsumer
    · obtain ⟨i, hi, rfl⟩ := List.mem_map.1 ha
      exact (Attribute.isWritten_int (hints i hi)).operand
  attributes e he := by
    have hmem := Dictionary.mem_of_mem_ofList he
    simp only [List.mem_cons, List.not_mem_nil, or_false] at hmem
    rcases hmem with rfl | rfl
    · exact ⟨hkey, Attribute.isWritten_int hn⟩
    · exact ⟨isLexeme_of_mem_stageIdents "sym_name" (by simp [stageIdents]),
        Attribute.isWritten_str _⟩
  toGivesNames := Operation.givesNames_of_name hfree

/-- A FIFO in the body of a legible program, with what it asks for. -/
structure FifoSite (p : Program) (device fifo : OpId) (shape : FifoShape) : Prop
    extends Hosts p device fifo shape where
  legible : p.Legible
  inBody : fifo ∈ p.walk
  hides : p.HidesNone discardedNames ["aie.objectfifo"]
  producerKnown : p.KnownAt fifo shape.producer
  consumerKnown : p.KnownAt fifo shape.consumer

/-- What a FIFO asks for can be written. -/
structure FifoShape.IsWritten (shape : FifoShape) : Prop where
  name : Token.IsLexeme (.value shape.name)
  depth : Integer.Fits shape.depth
  size : Integer.Fits shape.size

/-- Creating the parts of a FIFO keeps values. -/
theorem EditRule.fifoParts_keepsValues : EditRule.fifoParts.KeepsValues names where
  place _ _ _ hop := hop.elim
  gives _ _ _ hop := hop.elim
  erases _ _ hop := hop.elim

namespace FifoSite

/-- Parts that are created leave the place of further parts. -/
theorem edited (h : FifoSite p device fifo shape) (hq : p.Extends .fifoParts q) :
    FifoSite q device fifo shape where
  toHosts := h.toHosts.edits hq.edits
  legible := hq.legible
  inBody := hq.kept fifo h.inBody
  hides := h.hides.edits EditRule.fifos_keepsValues (EditRule.fifos_names.exposes (by decide))
    h.sound hq.edits.fifos
  producerKnown := h.producerKnown.extends EditRule.fifoParts_keepsValues h.legible h.inBody hq
  consumerKnown := h.consumerKnown.extends EditRule.fifoParts_keepsValues h.legible h.inBody hq

/-- A part that uses the values of the tiles is put before the FIFO. -/
theorem insertPart (h : FifoSite p device fifo shape)
    (hrun : runOn (Action.insertBefore fifo op) p = (.ok id, q)) (hop : op.IsLegible)
    (part : ∀ parent, p.Within device parent → FifoPart p device parent op)
    (fresh : ∀ v, op.result = some v → v ∉ p.definedValues)
    (huses : ∀ v, .value v ∈ op.operands → v = shape.producer ∨ v = shape.consumer) :
    p.Places .fifoParts fifo op id q ∧ q.Precedes id fifo := by
  have hparts : ∀ name ∈ fifoPartNames, name ∉ discardedNames := by decide
  have hedits := h.toHosts.insertBefore hrun part fresh
  obtain ⟨parent, i, -, hwithin, -⟩ := Program.insertBefore_within h.sound
    (Program.mem_devices.1 h.inDevice).1 h.below op
  refine h.legible.insertBefore_ok h.inBody hrun hedits hop (fun v hv => ?_) fresh fun _ =>
    ⟨hparts _ (part parent hwithin).name_mem, fun x hx hname hbelow => ?_⟩
  · rcases huses v hv with rfl | rfl
    · exact h.producerKnown
    · exact h.consumerKnown
  · exact h.hides x hx hname fifo hbelow (List.mem_singleton.2 (beq_iff_eq.1 h.isFifo))

/-- A part that defines a value leaves the streams, and its value is known at the FIFO. -/
theorem insertNamed {name suffix value key : String} {ints : List Int} {n : Int}
    (h : FifoSite p device fifo shape)
    (hrun : runOn (Action.insertBefore fifo (shape.part name suffix value key ints n)) p =
      (.ok id, q))
    (part : ∀ parent, p.Within device parent →
      FifoPart p device parent (shape.part name suffix value key ints n))
    (hname : name ∈ ["aie.buffer", "aie.lock"]) (hvalue : Token.IsLexeme (.value value))
    (hfresh : value ∉ p.definedValues) (hints : ∀ i ∈ ints, Integer.Fits i)
    (hkey : Token.IsLexeme (.ident key)) (hn : Integer.Fits n) :
    p.Extends .fifoParts q ∧ q.streaming ⊆ p.streaming ∧ q.KnownAt fifo value := by
  have hnames : ∀ name ∈ ["aie.buffer", "aie.lock"], name ∈ stageIdents ∧
      name ∉ Operation.namingNames ∧ name ∉ streamNames := by decide
  obtain ⟨hident, hfree, hstream⟩ := hnames name hname
  have hlex := isLexeme_of_mem_stageIdents name hident
  obtain ⟨hq, hbefore⟩ := h.insertPart hrun
    (FifoShape.part_isLegible hlex hfree hvalue (h.consumerKnown.isLexeme h.legible) hints hkey hn)
    part (fun v hv => by
      cases hv
      exact hfresh) fun v hv => by
      rcases List.mem_cons.1 hv with heq | hv
      · cases heq
        exact .inr rfl
      · obtain ⟨i, -, hi⟩ := List.mem_map.1 hv
        cases hi
  exact ⟨hq.toExtends, fun y hy => (hq.mem_streaming h.sound hy).resolve_right fun hnew =>
    hstream hnew.2, id, hbefore, hq.header.result⟩

/-- A slot is created legibly and adds no stream. -/
theorem insertSlot {i : Nat} (h : FifoSite p device fifo shape) (hshape : shape.IsWritten)
    (hrun : runOn (insertSlot fifo shape i) p = (.ok (), q)) :
    p.Extends .fifoParts q ∧ q.streaming ⊆ p.streaming := by
  rw [TileFlow.insertSlot] at hrun
  dsimp only at hrun
  rw [get_bind_ok] at hrun
  obtain ⟨id, r, hinsert, hrun⟩ := bind_ok.1 hrun
  obtain ⟨-, rfl⟩ := pure_ok.1 hrun
  have hsymbol : s!"{shape.name}_buff_{i}" = shape.name ++ ("_buff_" ++ toString i) :=
    String.append_assoc
  have hlex : Token.IsLexeme (.value (shape.name ++ ("_buff_" ++ toString i))) := by
    refine Token.isLexeme_value_append hshape.name fun c hc => ?_
    rw [String.toList_append, List.mem_append] at hc
    rcases hc with hc | hc
    · exact List.all_eq_true.1 (by decide : "_buff_".toList.all isWordChar = true) c hc
    · exact isWordChar_of_mem_repr hc
  rw [hsymbol] at hinsert
  replace hinsert : runOn (Action.insertBefore fifo (shape.part "aie.buffer"
    ("_buff_" ++ toString i) (p.freshValue (shape.name ++ ("_buff_" ++ toString i))) "size" []
    shape.size)) p = (.ok id, r) := hinsert
  obtain ⟨hq, hstream, -⟩ := h.insertNamed hinsert (fun _ _ => .slot _ _ _ rfl rfl h.consumer)
    (by simp) (p.isLexeme_freshValue hlex) (p.freshValue_notMem _)
      (fun _ hi => absurd hi List.not_mem_nil)
    (isLexeme_of_mem_stageIdents _ (by simp [stageIdents])) hshape.size
  exact ⟨hq, hstream⟩

/-- A lock is created legibly, adds no stream, and its value is known from there on. -/
theorem insertLock {suffix value : String} {initial : Int} (h : FifoSite p device fifo shape)
    (hshape : shape.IsWritten) (hsuffix : ("_" ++ suffix).toList.all isWordChar = true)
    (hinitial : Integer.Fits initial)
    (hrun : runOn (insertLock device fifo shape suffix initial) p = (.ok value, q)) :
    p.Extends .fifoParts q ∧ q.streaming ⊆ p.streaming ∧ q.KnownAt fifo value := by
  rw [TileFlow.insertLock] at hrun
  dsimp only at hrun
  obtain ⟨n, r, hnext, hrun⟩ := bind_ok.1 hrun
  obtain ⟨rfl, hpos, hlimit, hfree⟩ := nextFreeLockId_ok hnext
  rw [get_bind_ok] at hrun
  obtain ⟨id, r, hinsert, hrun⟩ := bind_ok.1 hrun
  obtain ⟨rfl, rfl⟩ := pure_ok.1 hrun
  have hsymbol : s!"{shape.name}_{suffix}" = shape.name ++ ("_" ++ suffix) := String.append_assoc
  rw [hsymbol] at hinsert ⊢
  replace hinsert : runOn (Action.insertBefore fifo (shape.part "aie.lock" ("_" ++ suffix)
    (p.freshValue (shape.name ++ ("_" ++ suffix))) "init" [n] initial)) p = (.ok id, r) := hinsert
  have hlex := Token.isLexeme_value_append hshape.name (List.all_eq_true.1 hsuffix)
  have hn := Integer.fits_of_lt_lockCount hpos hlimit
  exact h.insertNamed hinsert
    (fun _ hwithin => .lock _ _ _ n rfl rfl h.consumer hpos hlimit hfree hwithin) (by simp)
    (p.isLexeme_freshValue hlex) (p.freshValue_notMem _)
    (fun i hi => List.mem_singleton.1 hi ▸ hn)
    (isLexeme_of_mem_stageIdents _ (by simp [stageIdents])) hinitial

/-- The record of a stream uses no values. -/
theorem insertAllocation {direction : String} {tile : Tile} {channel : Nat}
    (h : FifoSite p device fifo shape) (hshape : shape.IsWritten)
    (hdirection : Token.IsLexeme (.ident direction)) (hchannel : Integer.Fits channel)
    (hcolumn : Integer.Fits tile.column)
    (hrun : runOn (insertAllocation device fifo shape.name direction tile channel) p =
      (.ok (), q)) : p.Extends .fifoParts q ∧ q.streaming ⊆ p.streaming := by
  rw [TileFlow.insertAllocation, get_bind_ok] at hrun
  split at hrun
  · obtain ⟨id, r, hinsert, hrun⟩ := bind_ok.1 hrun
    obtain ⟨-, rfl⟩ := pure_ok.1 hrun
    obtain ⟨hq, -⟩ := h.insertPart hinsert
      (Operation.isLegible_of_operands false (isLexeme_of_mem_stageIdents _ (by simp [stageIdents]))
        (by decide) fun a ha => by
        simp only [List.mem_cons, List.not_mem_nil, or_false] at ha
        rcases ha with rfl | rfl | rfl | rfl
        · exact (Attribute.isWritten_symbol (Token.isLexeme_symbol_of_value hshape.name)).operand
        · exact (Attribute.isWritten_ident hdirection).operand
        · exact (Attribute.isWritten_int hchannel).operand
        · exact (Attribute.isWritten_int hcolumn).operand)
      (fun _ _ => .allocation _ rfl rfl) (Program.fresh_of_none rfl) fun v hv => by simp at hv
    exact ⟨hq.toExtends, fun y hy => (hq.mem_streaming h.sound hy).resolve_right fun hnew =>
      (by decide : "aie.shim_dma_allocation" ∉ streamNames) hnew.2⟩
  · obtain ⟨-, rfl⟩ := pure_ok.1 hrun
    exact ⟨.refl h.legible, fun _ hy => hy⟩

/-- The stream of a FIFO is one more flow, on channels that are numbers of flows. -/
theorem insertStream (h : FifoSite p device fifo shape) (hshape : shape.IsWritten)
    (hfew : p.streaming.length ≤ 2 ^ 63)
    (hrun : runOn (insertStream device fifo shape) p = (.ok (), q)) :
    p.Extends .fifoParts q ∧ ∃ flow, q.streaming ⊆ flow :: p.streaming := by
  rw [TileFlow.insertStream] at hrun
  split at hrun
  · rw [get_bind_ok] at hrun
    dsimp only at hrun
    obtain ⟨flow, r, hinsert, hrun⟩ := bind_ok.1 hrun
    obtain ⟨_, s, hsource, hdestination⟩ := bind_ok.1 hrun
    have hfits : ∀ tile e, Integer.Fits (p.dmaChannelsInUse device tile e) := fun tile e => by
      have hlt := Program.dmaChannelsInUse_lt h.sound (Program.mem_walk_of_mem_devices h.inDevice)
        h.inBody h.isFifo tile e
      exact ⟨by omega, by omega⟩
    obtain ⟨hr, -⟩ := h.insertPart hinsert
      (Operation.isLegible_of_operands false (isLexeme_of_mem_stageIdents _ (by simp [stageIdents]))
        (by decide) fun a ha => by
        simp only [List.mem_cons, List.not_mem_nil, or_false] at ha
        rcases ha with rfl | rfl | rfl | rfl | rfl | rfl
        · exact Attribute.isWrittenOperand_value (h.producerKnown.isLexeme h.legible)
        · exact (Attribute.isWritten_ident
            (isLexeme_of_mem_stageIdents _ (by simp [stageIdents]))).operand
        · exact (Attribute.isWritten_int (hfits _ _)).operand
        · exact Attribute.isWrittenOperand_value (h.consumerKnown.isLexeme h.legible)
        · exact (Attribute.isWritten_ident
            (isLexeme_of_mem_stageIdents _ (by simp [stageIdents]))).operand
        · exact (Attribute.isWritten_int (hfits _ _)).operand)
      (fun _ hwithin => .stream _ _ _ _ h.producer h.consumer hwithin) (Program.fresh_of_none rfl)
      fun v hv => by simpa using hv
    have hr' := h.edited hr.toExtends
    obtain ⟨hs, hstreams⟩ := hr'.insertAllocation hshape
      (isLexeme_of_mem_stageIdents _ (by simp [stageIdents])) (hfits _ _)
      (h.legible.tileOf?_fits h.producer).1 hsource
    obtain ⟨hq, hstreamq⟩ := (hr'.edited hs).insertAllocation hshape
      (isLexeme_of_mem_stageIdents _ (by simp [stageIdents]))
      (hfits _ _) (h.legible.tileOf?_fits h.consumer).1 hdestination
    refine ⟨(hr.toExtends.trans hs).trans hq, flow, fun y hy => ?_⟩
    rcases hr.mem_streaming h.sound (hstreams (hstreamq hy)) with hold | ⟨rfl, -⟩
    · exact List.mem_cons_of_mem _ hold
    · exact List.mem_cons_self
  · obtain ⟨-, rfl⟩ := pure_ok.1 hrun
    exact ⟨.refl h.legible, fifo, List.subset_cons_self fifo _⟩

end FifoSite

/-! ### Accesses -/

/-- The lock that an access uses is one of the pair, and the action can be written. -/
theorem Access.lowered_mem (access : Access) (locks : LockPair) (side : Side) :
    (access.lowered locks side).1 ∈ [locks.producer, locks.consumer] ∧
      (access.lowered locks side).2 ∈ ["acquire_ge", "release"] := by
  cases access <;> cases side <;> simp [Access.lowered]

/-- An access becomes a use of one of the locks, and no other operation changes. -/
theorem lowerAccess_eq (name : String) (locks : LockPair) (op : Operation) :
    lowerAccess name locks op = op ∨
      (op.name ∈ fifoUserNames ∧ ∃ lock ∈ [locks.producer, locks.consumer],
        ∃ action ∈ ["acquire_ge", "release"], lowerAccess name locks op =
          { op with
            name := "aie.use_lock"
            operands := [.value lock, .ident action, .int ((op.operandInt? 2).getD 1)] }) := by
  rcases haccess : Access.of? op with _ | access
  · exact .inl (by rw [lowerAccess, haccess])
  by_cases hsymbol : op.operandSymbol? 0 = some name
  · obtain ⟨hlock, haction⟩ := access.lowered_mem locks op.accessSide
    refine .inr ⟨(by decide : ∀ name ∈ _, name ∈ fifoUserNames) _ (Access.name_mem haccess), _,
      hlock, _, haction, ?_⟩
    rw [lowerAccess, haccess]
    exact if_pos hsymbol
  · refine .inl ?_
    rw [lowerAccess, haccess]
    exact if_neg hsymbol

/-- The uses of locks come after the FIFO, and so after the locks. -/
theorem lowerAccesses_legible {name : String} {locks : LockPair} (hp : p.Legible)
    (hfirst : p.FifosFirst) (hdevice : device ∈ p.devices)
    (hfifo : fifo ∈ p.findIn device "aie.objectfifo")
    (hlocks : ∀ lock ∈ [locks.producer, locks.consumer], p.KnownAt fifo lock)
    (h : runOn ((p.walkIn device).forM fun id => Action.update id (lowerAccess name locks)) p =
      (.ok (), q)) : p.Extends .fifos q := by
  have huse : "aie.use_lock" ∈ stageIdents ∧ "aie.use_lock" ∉ Operation.namingNames ∧
      "aie.use_lock" ∉ discardedNames := by decide
  have hnames : ∀ name ∈ fifoUserNames, name ∉ "aie.use_lock" :: fifoPartNames := by decide
  have hwalk := Program.mem_walk_of_mem_devices hdevice
  refine Program.Extends.forM hp h fun id hid r s hr hrun => ?_
  rw [runOn_update, Prod.mk.injEq] at hrun
  obtain ⟨-, rfl⟩ := hrun
  have hidp := hp.sound.toWellFormed.mem_walk_of_walkIn hwalk hid
  have hidr := hr.kept id hidp
  have hlt := hr.legible.sound.created id hidr
  refine ⟨.single (.change id _ hlt ⟨name, locks, rfl⟩ (result_lowerAccess name locks _)),
    hr.legible.modify fun _ => ?_, fun _ hj => hj⟩
  have hop := hr.legible.legible id hlt
  rcases lowerAccess_eq name locks (r.op id) with heq | ⟨huser, lock, hlock, action, haction, heq⟩
  · rw [heq]
    exact .refl hop
  have hlex : Token.IsLexeme (.ident action) :=
    isLexeme_of_mem_stageIdents _ <|
      (by decide : ∀ action ∈ ["acquire_ge", "release"], action ∈ stageIdents) _
      haction
  -- An access was one before, and then the FIFO comes before it.
  have hknown : r.KnownAt id lock := by
    have hgives := EditRule.fifos_names.keeps_ne (hnames _ huser)
    have hold := (hr.edits.old_of_name hgives hp.sound hlt rfl).2
    have hbefore := hfirst id hidp (hold ▸ huser) device hdevice hid fifo hfifo
    exact ((hlocks lock hlock).trans hp.sound hbefore).extends EditRule.fifos_keepsValues hp hidp hr
  rw [heq]
  refine ⟨⟨⟨isLexeme_of_mem_stageIdents _ huse.1, hop.result, fun a ha => ?_, hop.attributes⟩,
    Operation.givesNames_of_name huse.2.1⟩, rfl, rfl, fun hname => absurd hname huse.2.2,
    fun _ v hv => .inr ?_⟩
  · simp only [List.mem_cons, List.not_mem_nil, or_false] at ha
    rcases ha with rfl | rfl | rfl
    · exact Attribute.isWrittenOperand_value (hknown.isLexeme hr.legible)
    · exact (Attribute.isWritten_ident hlex).operand
    · refine (Attribute.isWritten_int ?_).operand
      rcases hint : (r.op id).operandInt? 2 with _ | n
      · exact (by decide : Integer.Fits 1)
      · exact hop.operandInt? hint
  · simp only [List.mem_cons, List.not_mem_nil, or_false, Attribute.value.injEq, reduceCtorEq] at hv
    exact hv ▸ hknown

/-- The flows and FIFOs are no accesses. -/
theorem lowerAccesses_streaming {name : String} {locks : LockPair} (hp : p.Sound)
    (h : runOn ((p.walkIn device).forM fun id => Action.update id (lowerAccess name locks)) p =
      (.ok (), q)) : q.streaming ⊆ p.streaming := by
  have hloop : q.streaming ⊆ p.streaming ∧ p.slots.size ≤ q.slots.size :=
    forM_induction (I := fun r => r.streaming ⊆ p.streaming ∧ p.slots.size ≤ r.slots.size) h
      ⟨fun _ hy => hy, Nat.le_refl _⟩ fun id hid r s hI hrun => by
        obtain ⟨hr, hsize⟩ := hI
        rw [runOn_update, Prod.mk.injEq] at hrun
        obtain ⟨-, rfl⟩ := hrun
        refine ⟨fun y hy => hr ?_, by rwa [Program.size_modify]⟩
        obtain ⟨hwalk, hname⟩ := Program.mem_streaming.1 hy
        refine Program.mem_streaming.2 ⟨hwalk, Program.of_op_modify
          (K := fun op => op.name ∈ streamNames)
          (Nat.lt_of_lt_of_le (hp.lt_size_of_walkIn hid) hsize) (fun hnew => ?_) hname⟩
        rcases lowerAccess_cases name locks (r.op id) with heq | ⟨-, -, heq, -⟩
        · rwa [heq] at hnew
        · rw [heq] at hnew
          exact absurd hnew (by decide)
  exact hloop.1

/-! ### The stage -/

/-- What a FIFO asks for can be written. -/
theorem FifoShape.ReadFrom.isWritten (h : shape.ReadFrom p fifo) (hop : (p.op fifo).IsLegible)
    (his : (p.op fifo).is "aie.objectfifo" = true) : shape.IsWritten where
  name := hop.fifo his _ h.name
  depth := by
    rw [h.depth]
    rcases hint : (p.op fifo).intAttr? "depth" with _ | n
    · exact (by decide : Integer.Fits 2)
    · exact hop.intAttr? hint
  size := hop.intAttr? h.size

/-- A FIFO and its accesses, of which it comes first, become what can be loaded. -/
theorem lowerObjectFifo_legible (hp : p.Legible) (hfirst : p.FifosFirst)
    (hhides : p.HidesNone discardedNames ["aie.objectfifo"]) (hfew : p.streaming.length ≤ 2 ^ 63)
    (hdevice : device ∈ p.devices) (his : (p.op fifo).is "aie.objectfifo" = true)
    (hbody : fifo ∈ p.walk) (hbelow : fifo ∈ p.walkIn device)
    (h : runOn (lowerObjectFifo device fifo) p = (.ok (), q)) :
    ∃ r, p.Extends .fifos r ∧ q = r.erase fifo ∧ q.FifosFirst ∧
      q.streaming.length ≤ 2 ^ 63 := by
  obtain ⟨f, rfl⟩ := lowerObjectFifo_run h
  have hlt := hp.sound.created fifo hbody
  have hscope := hp.scope fifo hbody
  have hshape := f.read.isWritten (hp.legible fifo hlt) his
  have hsite : FifoSite p device fifo f.shape :=
    ⟨⟨hp.sound, hp.values, hdevice, hlt, his, fun _ => hbelow, f.read.producer, f.read.consumer⟩,
      hp, hbody, hhides, hscope _ (Operation.mem_operands_of_value f.read.producerValue),
      hscope _ (Operation.mem_operands_of_value f.read.consumerValue)⟩
  obtain ⟨h₁, hs₁⟩ : p.Extends .fifoParts f.buffered ∧ f.buffered.streaming ⊆ p.streaming :=
    forM_induction (I := fun r => p.Extends .fifoParts r ∧ r.streaming ⊆ p.streaming) f.slots
      ⟨.refl hp, fun _ hy => hy⟩ fun i _ r s hI hrun => by
        obtain ⟨hr, hstream⟩ := hI
        obtain ⟨hs, hstreams⟩ := (hsite.edited hr).insertSlot hshape hrun
        exact ⟨hr.trans hs, fun y hy => hstream (hstreams hy)⟩
  have hsite₁ := hsite.edited h₁
  obtain ⟨h₂, hs₂, hknown₂⟩ := hsite₁.insertLock hshape (by decide) hshape.depth f.producer
  have hsite₂ := hsite₁.edited h₂
  obtain ⟨h₃, hs₃, hknown₃⟩ := hsite₂.insertLock hshape (by decide) (by decide) f.consumer
  have hsite₃ := hsite₂.edited h₃
  have hs : f.consumed.streaming ⊆ p.streaming := fun y hy => hs₁ (hs₂ (hs₃ hy))
  have hfew₃ := (List.subperm_of_subset h₃.legible.sound.nodup_streaming hs).length_le
  obtain ⟨h₄, flow, hs₄⟩ := hsite₃.insertStream hshape (Nat.le_trans hfew₃ hfew) f.stream
  have hsite₄ := hsite₃.edited h₄
  have hparts : p.Extends .fifoParts f.streamed := ((h₁.trans h₂).trans h₃).trans h₄
  have hdeviceWalk := Program.mem_walk_of_mem_devices hsite₄.inDevice
  have hfirst₄ : f.streamed.FifosFirst := hfirst.edits hp.sound EditRule.fifos_sparesDevices
    EditRule.fifos_names (by decide) hparts.edits.fifos
  have hknown : ∀ lock ∈ [f.locks.producer, f.locks.consumer], f.streamed.KnownAt fifo lock := by
    simp only [List.mem_cons, List.not_mem_nil, or_false]
    rintro lock (rfl | rfl)
    · exact (hknown₂.extends EditRule.fifoParts_keepsValues hsite₂.legible hsite₂.inBody h₃).extends
        EditRule.fifoParts_keepsValues hsite₃.legible hsite₃.inBody h₄
    · exact hknown₃.extends EditRule.fifoParts_keepsValues hsite₃.legible hsite₃.inBody h₄
  have h₅ := lowerAccesses_legible hsite₄.legible hfirst₄ hsite₄.inDevice
    (List.mem_filter.2 ⟨hsite₄.below hsite₄.inBody, hsite₄.isFifo⟩) hknown f.accesses
  have hs₅ := lowerAccesses_streaming hsite₄.sound f.accesses
  have hall : p.Extends .fifos f.accessed :=
    Program.Extends.trans ⟨hparts.edits.fifos, hparts.legible, hparts.kept⟩ h₅
  -- The stream takes the place of the FIFO.
  have hisq : (f.accessed.op fifo).is "aie.objectfifo" = true :=
    (hall.edits.is_eq hp.sound EditRule.fifos_dissolves.changes hlt).trans his
  have hltq : fifo < f.accessed.slots.size := hall.legible.sound.created fifo (hall.kept fifo hbody)
  have herase : f.accessed.Edits .fifos (f.accessed.erase fifo) := .single (.erase fifo hltq hisq)
  refine ⟨f.accessed, hall, rfl, hfirst.edits hp.sound EditRule.fifos_sparesDevices
    EditRule.fifos_names (by decide) (hall.edits.trans herase), ?_⟩
  have hfifo : fifo ∈ p.streaming :=
    Program.mem_streaming.2 ⟨hbody, by rw [beq_iff_eq.1 his]; decide⟩
  have hleft : (f.accessed.erase fifo).streaming ⊆ flow :: p.streaming.erase fifo := fun y hy => by
    obtain ⟨hwalk, hname⟩ := Program.mem_streaming.1 hy
    have hcut := Program.cut_erase hall.legible.sound hltq
    obtain ⟨hold, hne, -⟩ := (hcut.walk y).1 hwalk
    rw [hcut.op] at hname
    rcases List.mem_cons.1 (hs₄ (hs₅ (Program.mem_streaming.2 ⟨hold, hname⟩))) with rfl | hy
    · exact List.mem_cons_self
    · exact List.mem_cons_of_mem _ ((List.mem_erase_of_ne hne).2 (hs hy))
  have hlength := (List.subperm_of_subset
    (herase.sound hall.legible.sound).nodup_streaming hleft).length_le
  rw [List.length_cons, List.length_erase_of_mem hfifo] at hlength
  have hpos := List.length_pos_of_mem hfifo
  omega

/-- The lowering of FIFOs keeps a program legible if the FIFOs come before what needs them and are
not below operations that may be erased. -/
theorem lowerObjectFifos_legible (hp : p.Legible) (hfirst : p.FifosFirst)
    (hhides : p.HidesNone discardedNames ["aie.objectfifo"]) (hfew : p.streaming.length ≤ 2 ^ 63)
    (h : runOn Stage.lowerObjectFifos.action p = (.ok (), q)) : q.Legible := by
  have hstage := Stage.legible_replace
    (J := fun r => r.FifosFirst ∧ r.streaming.length ≤ 2 ^ 63) EditRule.fifos_sparesDevices
    EditRule.fifos_dissolves EditRule.fifos_keepsValues (by decide) hp ⟨hfirst, hfew⟩ h
    fun device fifo r s hr hI hedits hdevice hlt his hbelow hbody hrun => by
      obtain ⟨hfirst, hfew⟩ := hI
      have hhidesr := hhides.edits EditRule.fifos_keepsValues
        (EditRule.fifos_names.exposes (by decide)) hp.sound hedits
      have hwalk := hbody hhides
      exact lowerObjectFifo_legible hr hfirst hhidesr hfew hdevice his hwalk (hbelow hwalk) hrun
  exact hstage.1

end TileFlow
