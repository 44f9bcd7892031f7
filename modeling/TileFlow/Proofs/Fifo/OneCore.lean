import TileFlow.Proofs.Fifo.Manned
import TileFlow.Proofs.Source.Written
import TileFlow.Proofs.Stage.Pipeline

/-!
# One core on a tile

A process is put in the core of its tile, which is looked up by the value that names the tile and
created when there is none. So no value gets a second core. No tile does either, as long as the
places of cores and the ends of FIFOs have one name each; with two tile operations for one place, a
second core is created.

## Main definitions

* `Program.OneCore`: no two cores of a device are on one tile.
* `Program.OneName`: the places of cores and FIFO ends have one name each.

## Main results

* `registerProcesses_oneCore`: processes put no second core on a tile.
-/

namespace TileFlow

open TileFlow.Action

variable {base p q r : Program} {device registration : OpId} {value : String}

/-- Whether no two cores of a device are on one tile. -/
def Program.OneCore (p : Program) (device : OpId) : Prop :=
  ∀ a ∈ p.findIn device "aie.core", ∀ b ∈ p.findIn device "aie.core", ∀ tile,
    p.owningTile? a = some tile → p.owningTile? b = some tile → a = b

/-- Whether no two cores of a device name the same value. -/
def Program.OneCoreEach (p : Program) (device : OpId) : Prop :=
  ∀ a ∈ p.findIn device "aie.core", ∀ b ∈ p.findIn device "aie.core", ∀ v,
    (p.op a).operandValue? 0 = some v → (p.op b).operandValue? 0 = some v → a = b

/-- Whether a value names the tile of an end of a FIFO of a device. -/
def Program.NamesEnd (p : Program) (device : OpId) (value : String) : Prop :=
  ∃ fifo ∈ p.findIn device "aie.objectfifo", ∃ side : Side,
    (p.op fifo).operandValue? side.tileIndex = some value

/-- Whether a value names the place of a core of a device. -/
def Program.NamesCore (p : Program) (device : OpId) (value : String) : Prop :=
  ∃ core ∈ p.findIn device "aie.core", (p.op core).operandValue? 0 = some value

/-- Whether a value names the place of a core, or the tile of an end of a FIFO. -/
def Program.NamesPlace (p : Program) (device : OpId) (value : String) : Prop :=
  p.NamesCore device value ∨ p.NamesEnd device value

/-- Whether the places of cores and FIFO ends of a device have one name each. -/
def Program.OneName (p : Program) (device : OpId) : Prop :=
  ∀ v w tile, p.NamesPlace device v → p.NamesPlace device w →
    p.placeOf? v = some tile → p.placeOf? w = some tile → v = w

/-! ### One process -/

/-- Having the same cores is transitive. -/
theorem Program.SameCores.trans (h : p.SameCores device q) (h' : q.SameCores device r) :
    p.SameCores device r where
  evolves := h.evolves.trans h'.evolves
  mem := h'.mem
  core c hc := by
    obtain ⟨hcq, hheader⟩ := h'.core c hc
    obtain ⟨hcp, hheader'⟩ := h.core c hcq
    exact ⟨hcp, hheader'.trans hheader⟩

/-- Whether a device has its cores of before, and perhaps one more for a value that had none. -/
def Program.MansOne (p : Program) (device : OpId) (value : String) (q : Program) : Prop :=
  ∀ core ∈ q.findIn device "aie.core",
    (core ∈ p.findIn device "aie.core" ∧ (p.op core).SameHeader (q.op core)) ∨
      (core = p.slots.size ∧ (q.op core).operandValue? 0 = some value ∧
        p.coreOn? device value = none)

/-- A tile is manned by one core as long as the cores are the same. -/
theorem Program.MansOne.same (h : p.MansOne device value q) (hs : q.SameCores device r) :
    p.MansOne device value r := fun core hcore => by
  obtain ⟨hcoreq, hheader⟩ := hs.core core hcore
  rcases h core hcoreq with ⟨hcorep, hheader'⟩ | ⟨hnew, hvalue, hnone⟩
  · exact .inl ⟨hcorep, hheader'.trans hheader⟩
  · exact .inr ⟨hnew, (hheader.operandValue? 0).trans hvalue, hnone⟩

/-- The core for a value is there, or it is the one more. -/
theorem coreFor_mansOne {core : OpId} (hp : p.Sound) (hdevice : device ∈ p.walk)
    (h : runOn (coreFor device value) p = (.ok core, q)) :
    p.MansOne device value q ∧ device ∈ q.walk := by
  rw [coreFor, get_bind_ok] at h
  split at h
  · obtain ⟨-, rfl⟩ := pure_ok.1 h
    exact ⟨fun _ hcore => .inl ⟨hcore, .refl _⟩, hdevice⟩
  · rename_i hnone
    obtain ⟨new, r, hnew, h⟩ := bind_ok.1 h
    obtain ⟨_, s, hend, h⟩ := bind_ok.1 h
    obtain ⟨-, rfl⟩ := pure_ok.1 h
    obtain ⟨rfl, hcreated⟩ := append_created hp hnew
    obtain ⟨-, hcreatedEnd⟩ := append_created hcreated.sound hend
    have hmem := (hcreated.walk device).2 (.inl hdevice)
    have hone : p.MansOne device value r := fun core hcore => by
      rcases hcreated.core_cases hp hdevice hcore with hold | hnew
      · exact .inl hold
      · obtain ⟨rfl, -⟩ := hnew
        exact .inr ⟨rfl, hcreated.header.operandValue? 0, hnone⟩
    have hsame := hcreatedEnd.sameCores hcreated.sound hmem rfl
    exact ⟨hone.same hsame, hsame.mem⟩

/-- A registered process gets the core of the value of its end of the FIFO, or the one more. -/
theorem registerProcess_mansOne (hp : p.Tree) (hdevice : device ∈ p.walk)
    (hlt : registration < p.slots.size)
    (h : runOn (registerProcess device registration) p = (.ok (), q)) (hmem : device ∈ q.walk) :
    ∃ value, p.NamesEnd device value ∧ p.MansOne device value q := by
  obtain ⟨run, rfl⟩ := registerProcess_run h
  refine ⟨run.value, ⟨run.fifo, List.mem_of_find?_eq_some run.fifo_eq, run.side, run.value_eq⟩, ?_⟩
  have hmanned := coreFor_edits (run.fifoUses hp.sound) run.core_run
  have htree := hmanned.tree hp
  obtain ⟨hone, hin⟩ := coreFor_mansOne hp.sound hdevice run.core_run
  obtain ⟨-, hloop⟩ := appendToCore_created htree run.loop_run
  have h₁ := hloop.sameCores htree.sound hin rfl
  obtain ⟨-, hacquire⟩ := append_created hloop.sound run.acquire_run
  have h₂ := h₁.trans (hacquire.sameCores hloop.sound h₁.mem rfl)
  obtain ⟨-, hcall⟩ := append_created hacquire.sound run.call_run
  have h₃ := h₂.trans (hcall.sameCores hacquire.sound h₂.mem rfl)
  obtain ⟨-, hrelease⟩ := append_created hcall.sound run.release_run
  have h₄ := h₃.trans (hrelease.sameCores hcall.sound h₃.mem rfl)
  have hsize := Nat.le_trans (hmanned.size_le hp.sound) h₄.evolves.size
  have hcut := Program.cut_erase hrelease.sound (Nat.lt_of_lt_of_le hlt hsize)
  exact (hone.same h₄).same (hcut.leavesCores hrelease.sound hmem).sameCores

/-! ### All processes of a device -/

/-- The cores of a device after some of its processes are in them: each is named as cores and FIFO
ends of before are, and no two of them are at one place, whatever the places of values are. -/
structure Program.Manning {κ : Type} (base : Program) (place : String → Option κ) (device : OpId)
    (p : Program) : Prop where
  edits : base.Edits .processes p
  named : ∀ core ∈ p.findIn device "aie.core", ∀ v, (p.op core).operandValue? 0 = some v →
    base.NamesPlace device v
  apart : ∀ a ∈ p.findIn device "aie.core", ∀ b ∈ p.findIn device "aie.core", ∀ v w t,
    (p.op a).operandValue? 0 = some v → (p.op b).operandValue? 0 = some w →
    place v = some t → place w = some t → a = b

/-- FIFO ends have the names of before. -/
theorem Program.Edits.namesEnd (h : p.Edits .processes q) (hp : p.Sound) (hmem : device ∈ q.walk)
    (hend : q.NamesEnd device value) : p.NamesEnd device value := by
  obtain ⟨fifo, hfifo, side, hvalue⟩ := hend
  have hfifop := h.findIn_of_old (EditRule.processes_names.keeps_ne (by decide)) hp hmem hfifo
  have hheader := h.sameHeader hp (fun _ _ _ hop => hop)
    (hp.lt_size_of_walkIn (List.mem_filter.1 hfifop).1)
  exact ⟨fifo, hfifop, side, (hheader.operandValue? _).symm.trans hvalue⟩

section Places

variable {κ : Type} {place : String → Option κ}

/-- A core that is created is at the place of no other one: that one would have its value. -/
theorem Program.Manning.step (h : base.Manning place device p)
    (hnames : ∀ v w t, base.NamesPlace device v → base.NamesPlace device w →
      place v = some t → place w = some t → v = w)
    (hedits : base.Edits .processes q) (hend : base.NamesEnd device value)
    (hone : p.MansOne device value q) : base.Manning place device q where
  edits := hedits
  named core hcore v hv := by
    rcases hone core hcore with ⟨hcorep, hheader⟩ | ⟨-, hvalue, -⟩
    · exact h.named core hcorep v ((hheader.operandValue? 0).symm.trans hv)
    · obtain rfl := Option.some.inj (hvalue.symm.trans hv)
      exact .inr hend
  apart := by
    -- An old core at the place of the value has the value, and would have been found.
    have hold : ∀ core ∈ p.findIn device "aie.core", ∀ v t, p.coreOn? device value = none →
        (p.op core).operandValue? 0 = some v → place v = some t → place value = some t → False :=
      fun core hcore v t hnone hv hplace hplace' => by
        obtain rfl := hnames v value t (h.named core hcore v hv) (.inr hend) hplace hplace'
        rw [coreOn?, List.find?_eq_none] at hnone
        exact hnone core hcore (beq_iff_eq.2 hv)
    intro a ha b hb v w t hv hw hplace hplace'
    rcases hone a ha with ⟨hap, hheader⟩ | ⟨hnew, hvalue, hnone⟩ <;>
      rcases hone b hb with ⟨hbp, hheader'⟩ | ⟨hnew', hvalue', hnone'⟩
    · exact h.apart a hap b hbp v w t ((hheader.operandValue? 0).symm.trans hv)
        ((hheader'.operandValue? 0).symm.trans hw) hplace hplace'
    · obtain rfl := Option.some.inj (hvalue'.symm.trans hw)
      exact (hold a hap v t hnone' ((hheader.operandValue? 0).symm.trans hv) hplace hplace').elim
    · obtain rfl := Option.some.inj (hvalue.symm.trans hv)
      exact (hold b hbp w t hnone ((hheader'.operandValue? 0).symm.trans hw) hplace' hplace).elim
    · exact hnew.trans hnew'.symm

/-- All processes of a device, one after the other. -/
theorem registerProcesses_manning (hp : p.Tree) (hdevice : device ∈ p.devices)
    (hnames : ∀ v w t, p.NamesPlace device v → p.NamesPlace device w →
      place v = some t → place w = some t → v = w)
    (hstart : p.Manning place device p)
    (h : runOn (registerProcesses device) p = (.ok (), q)) : p.Manning place device q := by
  rw [registerProcesses, get_bind_ok] at h
  have hspares := EditRule.processes_sparesDevices
  refine forM_induction (I := p.Manning place device) h hstart
    fun registration hfound r s hr hstep => ?_
  obtain ⟨hin, his⟩ := List.mem_filter.1 hfound
  have htree := hr.edits.tree hp
  have hlt := hp.sound.lt_size_of_walkIn hin
  have hltr := Nat.lt_of_lt_of_le hlt (hr.edits.size_le hp.sound)
  have hheader := hr.edits.sameHeader hp.sound (fun _ _ _ hop => hop) hlt
  obtain ⟨t, ht, rfl⟩ := registerProcess_ok htree.sound hstep
  have hlast := ht.sameHeader htree.sound (fun _ _ _ hop => hop) hltr
  have hedits : p.Edits .processes (t.erase registration) := (hr.edits.trans ht).trans (.single
    (.erase registration (Nat.lt_of_lt_of_le hltr (ht.size_le htree.sound))
      (((hheader.trans hlast).is _).trans his)))
  have hmemr := Program.mem_walk_of_mem_devices ((hr.edits.mem_devices hspares hp.sound).2 hdevice)
  have hmem := Program.mem_walk_of_mem_devices ((hedits.mem_devices hspares hp.sound).2 hdevice)
  obtain ⟨value, hnamed, hmans⟩ := registerProcess_mansOne htree hmemr hltr hstep hmem
  exact hr.step hnames hedits (hr.edits.namesEnd hp.sound hmemr hnamed) hmans

end Places

/-- A device with at most one core on each tile is manned from the start. -/
theorem Program.manning_start {κ : Type} {place : String → Option κ}
    (h : ∀ a ∈ p.findIn device "aie.core", ∀ b ∈ p.findIn device "aie.core", ∀ v w t,
      (p.op a).operandValue? 0 = some v → (p.op b).operandValue? 0 = some w →
      place v = some t → place w = some t → a = b) : p.Manning place device p :=
  ⟨.refl, fun core hcore _ hv => .inl ⟨core, hcore, hv⟩, h⟩

/-- **One core.** When the processes of a device are put into cores, no value gets a second core. No
tile gets one either, if the places of the cores and of the FIFO ends of the device have one name
each. -/
theorem registerProcesses_oneCore (hp : p.Tree) (hvalues : p.definedValues.Nodup)
    (hdevice : device ∈ p.devices) (h : runOn (registerProcesses device) p = (.ok (), q)) :
    (p.OneCoreEach device → q.OneCoreEach device) ∧
      (p.OneName device → p.OneCore device → q.OneCore device) := by
  refine ⟨fun hone => ?_, fun hnames hone => ?_⟩
  · have hstart : p.Manning some device p := Program.manning_start
      fun a ha b hb v w t hv hw hvt hwt => hone a ha b hb v hv (hw.trans (hwt.trans hvt.symm))
    have hend := registerProcesses_manning hp hdevice
      (fun v w t _ _ hvt hwt => Option.some.inj (hvt.trans hwt.symm)) hstart h
    exact fun a ha b hb v hv hw => hend.apart a ha b hb v v v hv hw rfl rfl
  · have hstart : p.Manning p.placeOf? device p := Program.manning_start
      fun a ha b hb v w tile hv hw hplace hplace' => hone a ha b hb tile
        (by rw [Program.owningTile?_eq, hv, Option.bind_some, hplace])
        (by rw [Program.owningTile?_eq, hw, Option.bind_some, hplace'])
    have hend := registerProcesses_manning hp hdevice hnames hstart h
    have hresolves : p.Resolves q := hend.edits.resolved hp.sound (fun _ _ _ hop => hop.1)
      fun _ _ _ hop => hop.elim
    intro a ha b hb tile hplace hplace'
    rw [Program.owningTile?_eq] at hplace hplace'
    obtain ⟨v, hv, hplace⟩ := Option.bind_eq_some_iff.1 hplace
    obtain ⟨w, hw, hplace'⟩ := Option.bind_eq_some_iff.1 hplace'
    exact hend.apart a ha b hb v w tile hv hw (hresolves.placeOf? hvalues hplace)
      (hresolves.placeOf? hvalues hplace')

/-- A FIFO between two tiles, one of them with a core, and a process at each end. -/
def manProcessesSource : String :=
  "aie.device(ipu) \x7b %a = aie.tile(0, 2) %b = aie.tile(0, 3)\n" ++
  "aie.core(%a) \x7b aie.end \x7d\n" ++
  "aie.objectfifo(%a, %b) \x7bsize = 16, sym_name = \"f\"\x7d\n" ++
  "aie.objectfifo.register_process(@f, produce, @g)\n" ++
  "aie.objectfifo.register_process(@f, consume, @k) \x7d"

/-- One process goes into the core that is there, and the other one into a new one. -/
theorem registerProcesses_oneCore_two :
    ∃ p q, Source.parse manProcessesSource = .ok p ∧ p.Tree ∧ p.definedValues.Nodup ∧
      0 ∈ p.devices ∧ runOn (registerProcesses 0) p = (.ok (), q) ∧ p.OneName 0 ∧ p.OneCore 0 ∧
      (q.findIn 0 "aie.core").length = 2 ∧ q.OneCoreEach 0 ∧ q.OneCore 0 := by
  have hsource : ∃ p, Source.parse manProcessesSource = .ok p ∧
      (runOn (registerProcesses 0) p).1.toOption = some () ∧ p.definedValues.Nodup ∧
      0 ∈ p.devices ∧ p.findIn 0 "aie.core" = [3] ∧ p.findIn 0 "aie.objectfifo" = [5] ∧
      (p.op 3).operandValue? 0 = some "a" ∧ (p.op 5).operandValue? 0 = some "a" ∧
      (p.op 5).operandValue? 1 = some "b" ∧
      p.placeOf? "a" = some ⟨0, 2⟩ ∧ p.placeOf? "b" = some ⟨0, 3⟩ ∧
      ((runOn (registerProcesses 0) p).2.findIn 0 "aie.core").length = 2 :=
    exists_ok_of_any (by decide +kernel)
  obtain ⟨p, hparse, hok, hvalues, hdevice, hcores, hfifos, hcore, hproducer, hconsumer, ha, hb,
    htwo⟩ := hsource
  obtain ⟨hsound, -, haside⟩ := Source.parse_ok hparse
  have htree := hsound.toWellFormed.tree haside
  have hrun := eq_ok_of_toOption hok
  have hplaces : ∀ v, p.NamesPlace 0 v → v = "a" ∨ v = "b" := by
    rintro v (⟨core, hmem, hv⟩ | ⟨fifo, hmem, side, hv⟩)
    · obtain rfl := List.mem_singleton.1 (hcores ▸ hmem)
      exact .inl (Option.some.inj (hv.symm.trans hcore))
    · obtain rfl := List.mem_singleton.1 (hfifos ▸ hmem)
      cases side with
      | produce => exact .inl (Option.some.inj (hv.symm.trans hproducer))
      | consume => exact .inr (Option.some.inj (hv.symm.trans hconsumer))
  have hnames : p.OneName 0 := by
    intro v w tile hv hw hplace hplace'
    rcases hplaces v hv with rfl | rfl <;> rcases hplaces w hw with rfl | rfl <;> try rfl
    · exact absurd (ha.symm.trans (hplace.trans (hplace'.symm.trans hb))) (by decide)
    · exact absurd (hb.symm.trans (hplace.trans (hplace'.symm.trans ha))) (by decide)
  have hsame : ∀ a ∈ p.findIn 0 "aie.core", ∀ b ∈ p.findIn 0 "aie.core", a = b := by simp [hcores]
  have hone : p.OneCore 0 := fun a ha b hb _ _ _ => hsame a ha b hb
  obtain ⟨heach, honly⟩ := registerProcesses_oneCore htree hvalues hdevice hrun
  exact ⟨p, _, hparse, htree, hvalues, hdevice, hrun, hnames, hone, htwo,
    heach fun a ha b hb _ _ _ => hsame a ha b hb, honly hnames hone⟩

/-- A core on one of two tile operations for the same place, and a process on the other one. -/
def twinTilesSource : String :=
  "aie.device(ipu) \x7b %a = aie.tile(0, 2) %b = aie.tile(0, 2)\n" ++
  "aie.core(%a) \x7b aie.end \x7d\n" ++
  "aie.objectfifo(%a, %b) \x7bsize = 16, sym_name = \"f\"\x7d\n" ++
  "aie.objectfifo.register_process(@f, consume, @k) \x7d"

/-- The process gets a second core on the tile: the core that is there has the other name of it. -/
theorem registerProcesses_oneCore_twin :
    ∃ p q, Source.parse twinTilesSource = .ok p ∧ p.Tree ∧ p.definedValues.Nodup ∧
      0 ∈ p.devices ∧ p.OneCore 0 ∧ runOn (registerProcesses 0) p = (.ok (), q) ∧
      ¬q.OneCore 0 := by
  have hsource : ∃ p, Source.parse twinTilesSource = .ok p ∧
      (runOn (registerProcesses 0) p).1.toOption = some () ∧ p.definedValues.Nodup ∧
      0 ∈ p.devices ∧ p.findIn 0 "aie.core" = [3] ∧
      (runOn (registerProcesses 0) p).2.findIn 0 "aie.core" = [3, 7] ∧
      (runOn (registerProcesses 0) p).2.owningTile? 3 = some ⟨0, 2⟩ ∧
      (runOn (registerProcesses 0) p).2.owningTile? 7 = some ⟨0, 2⟩ :=
    exists_ok_of_any (by decide +kernel)
  obtain ⟨p, hparse, hok, hvalues, hdevice, hcores, hcores', h3, h7⟩ := hsource
  obtain ⟨hsound, -, haside⟩ := Source.parse_ok hparse
  refine ⟨p, _, hparse, hsound.toWellFormed.tree haside, hvalues, hdevice, ?_,
    eq_ok_of_toOption hok, fun hone => ?_⟩
  · intro a ha b hb _ _ _
    rw [hcores, List.mem_singleton] at ha hb
    exact ha.trans hb.symm
  · have heq := hone 3 (hcores' ▸ by simp) 7 (hcores' ▸ by simp) _ h3 h7
    exact absurd heq (by decide)

end TileFlow
