import TileFlow.Proofs.Fifo.Channel
import TileFlow.Proofs.Fifo.Process
import TileFlow.Proofs.Memory.Layout
import TileFlow.Proofs.Routing.FanOut
import TileFlow.Proofs.Routing.Packet
import TileFlow.Proofs.Stage.CanonicalShape
import TileFlow.Proofs.Stage.Pipeline

/-!
# The canonical form

What the pipeline leaves that every branch starts from. Each of its stages gets rid of something or
completes it, and no later stage brings it back: the names that a stage gives to operations are not
among those that are gone by then.

## Main definitions

* `Program.Lowered`: what is done after some of the stages.
* `Program.Canonical`: what is done in the end.
* `LoweringRun`: the programs between the stages up to the layout of the buffers.
* `EditRule.Lowers`: edits that undo nothing of it but for the names that they give.

## Main results

* `Program.Lowered.edits`: what one stage keeps.
* `LoweringRun.lowered`: what is done before the buffers are laid out.
* `canonicalizeSource_canonical`: the program that the pipeline leaves is canonical, and no lock is
  without an identifier when the buffers are laid out.
-/

namespace TileFlow

open TileFlow.Action

variable {rule : EditRule} {p q : Program} {gone names : List String}

/-! ### What is done -/

/-- A program with devices and without affine operations, whose locks have identifiers, and in which
the operations with some names are gone from all devices. -/
structure Program.Lowered (p : Program) (gone : List String) : Prop where
  sound : p.Sound
  values : p.definedValues.Nodup
  devices : p.devices ≠ []
  affine : ∀ id ∈ p.walk, (p.op id).dialect ≠ "affine"
  locks : ∀ device ∈ p.devices, ∀ id ∈ p.walkIn device, (p.op id).is "aie.lock" = true →
    (p.op id).lockId?.isSome = true
  gone : ∀ device ∈ p.devices, ∀ id ∈ p.walkIn device, (p.op id).name ∉ gone

/-- Edits that spare devices and leave locks with their identifiers, and whose names are not affine
ones. -/
structure EditRule.Lowers (rule : EditRule) (names : List String) : Prop where
  sparesDevices : rule.SparesDevices
  gives : rule.Names names
  affine : ∀ name ∈ names, Operation.dialect { name } ≠ "affine"
  locks : rule.Keeps fun op => op.is "aie.lock" = true → op.lockId?.isSome = true

/-- What is done stays done, if no name that is gone is given again. -/
theorem Program.Lowered.edits (h : p.Lowered gone) (hrule : rule.Lowers names)
    (hgone : ∀ name ∈ names, name ∉ gone) (hedits : p.Edits rule q) : q.Lowered gone where
  sound := hedits.sound h.sound
  values := hedits.nodup h.sound h.values
  devices := by
    obtain ⟨device, hdevice⟩ := List.exists_mem_of_ne_nil _ h.devices
    exact List.ne_nil_of_mem ((hedits.mem_devices hrule.sparesDevices h.sound).2 hdevice)
  affine := hedits.forall_walk
    (hrule.gives.keeps (N := fun name => Operation.dialect { name } ≠ "affine") hrule.affine)
    h.sound h.affine
  locks device hdevice := hedits.forall_walkIn hrule.locks h.sound (mem_walk_of_mem_devices hdevice)
    (h.locks device ((hedits.mem_devices hrule.sparesDevices h.sound).1 hdevice))
  gone device hdevice := hedits.forall_walkIn (hrule.gives.keeps hgone) h.sound
    (mem_walk_of_mem_devices hdevice)
    (h.gone device ((hedits.mem_devices hrule.sparesDevices h.sound).1 hdevice))

/-- One more name is gone. -/
theorem Program.Lowered.cons {name : String} (h : p.Lowered gone)
    (hname : ∀ device ∈ p.devices, ∀ id ∈ p.walkIn device, (p.op id).is name = false) :
    p.Lowered (name :: gone) where
  sound := h.sound
  values := h.values
  devices := h.devices
  affine := h.affine
  locks := h.locks
  gone device hdevice id hid hmem := by
    rcases List.mem_cons.1 hmem with heq | hmem
    · exact absurd heq (beq_eq_false_iff_ne.1 (hname device hdevice id hid))
    · exact h.gone device hdevice id hid hmem

/-! ### The rules of the stages -/

/-- Edits that give the name of locks to no operation keep those that have identifiers. -/
theorem EditRule.LeavesLocks.keeps_lockId_of_names (h : rule.LeavesLocks) (hrule : rule.Names names)
    (hlock : "aie.lock" ∉ names) :
    rule.Keeps fun op => op.is "aie.lock" = true → op.lockId?.isSome = true :=
  h.keeps_lockId fun p parent op hop hname => by
    rw [Operation.not_is_of_mem (hrule.creates p parent op hop) hlock] at hname
    cases hname

/-- Processes are lowered to what cores are made of. -/
theorem EditRule.processes_lowers : EditRule.processes.Lowers processNames where
  sparesDevices := processes_sparesDevices
  gives := processes_names
  affine := by decide
  locks := (leavesLocks_of_unchanged fun _ _ _ hop => hop).keeps_lockId_of_names processes_names
    (by decide)

/-- FIFOs are lowered to lock uses, buffers, locks and streams. -/
theorem EditRule.fifos_lowers : EditRule.fifos.Lowers ("aie.use_lock" :: fifoPartNames) where
  sparesDevices := fifos_sparesDevices
  gives := fifos_names
  affine := by decide
  locks := fifos_leavesLocks.keeps_lockId fun p parent op hop hlock => by
    obtain ⟨⟨device, -, hpart⟩, -⟩ := hop
    cases hpart with
    | slot _ _ _ hname =>
        exact absurd (Operation.is_inj hname hlock) (by decide)
    | lock _ _ _ _ _ hoperands =>
        rw [Operation.lockId?, Operation.operandInt?, hoperands]
        rfl
    | stream => cases hlock
    | allocation _ hname =>
        exact absurd (Operation.is_inj hname hlock) (by decide)

/-- Broadcasts are lowered to packet flows. -/
theorem EditRule.broadcasts_lowers : EditRule.broadcasts.Lowers
    ["aie.packet_flow", "aie.packet_source", "aie.packet_dest"] where
  sparesDevices := broadcasts_sparesDevices
  gives := broadcasts_names
  affine := by decide
  locks := (leavesLocks_of_unchanged fun _ _ _ hop => hop).keeps_lockId_of_names broadcasts_names
    (by decide)

/-- Packet flows are lowered to tiles, switchboxes and rules. -/
theorem EditRule.packets_lowers : EditRule.packets.Lowers
    ["aie.tile", "aie.switchbox", "aie.packet_rule"] where
  sparesDevices := packets_sparesDevices
  gives := packets_names
  affine := by decide
  locks := (leavesLocks_of_unchanged fun _ _ _ hop => hop).keeps_lockId_of_names packets_names
    (by decide)

/-- Multicasts are lowered to flows. -/
theorem EditRule.multicasts_lowers : EditRule.multicasts.Lowers ["aie.flow"] where
  sparesDevices := multicasts_sparesDevices
  gives := multicasts_names
  affine := by decide
  locks := (leavesLocks_of_unchanged fun _ _ _ hop => hop).keeps_lockId_of_names multicasts_names
    (by decide)

/-- Giving buffers addresses leaves the locks alone. -/
theorem EditRule.addresses_leavesLocks : EditRule.addresses.LeavesLocks where
  isLock _ _ _ hop := addresses_is hop _
  lock p id op hop _ _ := by
    obtain ⟨-, n, -, rfl⟩ := hop
    rfl
  isDevice _ _ _ hop := addresses_is hop _
  device p id op hop _ := by
    obtain ⟨-, n, -, rfl⟩ := hop
    rfl

/-- Giving buffers addresses creates nothing. -/
theorem EditRule.addresses_lowers : EditRule.addresses.Lowers [] where
  sparesDevices := addresses_sparesDevices
  gives := addresses_names
  affine := by decide
  locks := addresses_leavesLocks.keeps_lockId_of_names addresses_names (by decide)

/-- Lowering loops leaves the locks alone. -/
theorem EditRule.structured_leavesLocks : EditRule.structured.LeavesLocks where
  isLock _ _ _ hop := structured_is hop (by decide)
  lock p id op hop _ _ := by rcases hop with ⟨-, rfl⟩ | ⟨-, rfl⟩ <;> rfl
  isDevice _ _ _ hop := structured_is hop (by decide)
  device p id op hop _ := by rcases hop with ⟨-, rfl⟩ | ⟨-, rfl⟩ <;> rfl

/-- Structured operations are lowered to loops and conditionals. -/
theorem EditRule.structured_lowers : EditRule.structured.Lowers ["cf.loop", "cf.cond"] where
  sparesDevices := structured_sparesDevices
  gives := structured_names
  affine := by decide
  locks := structured_leavesLocks.keeps_lockId_of_names structured_names (by decide)

/-- Lowering loops leaves buffers laid out. -/
theorem EditRule.structured_keeps_laidOut :
    EditRule.structured.Keeps fun op => op.is "aie.buffer" = true → op.IsLaidOut where
  header := addresses_keeps_laidOut.header
  creates _ _ _ hop := hop.elim
  changes p id op hop ha hb := by
    have hlaid := ha (by rwa [structured_is hop (by decide)] at hb)
    rcases hop with ⟨-, rfl⟩ | ⟨-, rfl⟩ <;> exact hlaid

/-! ### The pipeline -/

/-- Before its locks are numbered, a program has a device, and no value that is defined twice. -/
theorem Program.Wraps.nodup (h : p.Wraps q) (hp : p.Sound) (hvalues : p.definedValues.Nodup) :
    q.definedValues.Nodup := by
  have hresolves : p.Resolves q := fun id hid hresult => by
    rcases h.walk id hid with hidp | hdefault
    · exact ⟨hidp, h.op id (hp.created id hidp) ▸ .refl _⟩
    · rw [hdefault] at hresult
      exact absurd rfl hresult
  exact hresolves.nodup hvalues h.sound.toWellFormed

/-- The operations that are gone from all devices when the buffers are laid out. -/
def loweredNames : List String :=
  ["aiex.multicast", "aie.packet_flow", "aiex.broadcast_packet", "aie.objectfifo",
    "aie.objectfifo.register_process"]

/-- The first two stages leave a program with a device and without affine operations. -/
theorem lowered_base (hp : p.Sound) (hvalues : p.definedValues.Nodup) (hdetached : p.detached = [])
    {a : Program} (haffine : runOn Stage.lowerAffine.action p = (.ok (), a))
    (hwrap : runOn Stage.canonicalizeDevice.action a = (.ok (), q)) :
    p.Edits .affine a ∧ a.Wraps q ∧ q.Sound ∧ q.definedValues.Nodup ∧
      ∀ id ∈ q.walk, (q.op id).dialect ≠ "affine" := by
  obtain ⟨hedits, ha, hnone⟩ := lowerAffine_edits hp haffine
  have hsa := hedits.sound hp
  have hwraps := wrapInDevice_wraps hsa (ha.trans hdetached) hwrap
  refine ⟨hedits, hwraps, hwraps.sound, hwraps.nodup hsa (hedits.nodup hp hvalues),
    fun id hid => ?_⟩
  rcases hwraps.walk id hid with hida | hdefault
  · rw [hwraps.op id (hsa.created id hida)]
    exact hnone id hida
  · rw [hdefault]
    decide

/-- Numbered locks have identifiers. -/
theorem lowered_lockIds (hp : p.Sound) (hvalues : p.definedValues.Nodup) (hdevices : p.devices ≠ [])
    (haffine : ∀ id ∈ p.walk, (p.op id).dialect ≠ "affine")
    (h : runOn Stage.assignLockIds.action p = (.ok (), q)) : q.Lowered [] := by
  obtain ⟨hedits, hnumbered⟩ := assignLockIds_edits hp hvalues h
  have hspares := EditRule.lockIds_sparesDevices
  obtain ⟨device, hdevice⟩ := List.exists_mem_of_ne_nil _ hdevices
  refine ⟨hedits.sound hp, hedits.nodup hp hvalues,
    List.ne_nil_of_mem ((hedits.mem_devices hspares hp).2 hdevice), ?_, fun device hdevice id hid
      hname => ?_, fun _ _ _ _ => List.not_mem_nil⟩
  · exact hedits.forall_walk (EditRule.lockIds_names.keeps
      (N := fun name => Operation.dialect { name } ≠ "affine") (by decide)) hp haffine
  · obtain ⟨tile, n, hslot, -⟩ :=
      (hnumbered device hdevice).placed id (List.mem_filter.2 ⟨hid, hname⟩)
    rw [(Program.lockSlot?_eq_some.1 hslot).2]
    rfl

/-- The stages of the pipeline before the buffers are laid out. -/
def loweringStages : List Stage :=
  [.lowerAffine, .canonicalizeDevice, .assignLockIds, .registerObjectFifos, .lowerObjectFifos,
    .broadcastPackets, .routePacketFlows, .lowerMulticast]

/-- A successful run of these stages from a program that the parser made, with the programs between
them. -/
structure LoweringRun (p q : Program) where
  affine : Program
  base : Program
  lockIds : Program
  processes : Program
  fifos : Program
  broadcasts : Program
  packets : Program
  sound : p.Sound
  values : p.definedValues.Nodup
  detached : p.detached = []
  affine_run : runOn Stage.lowerAffine.action p = (.ok (), affine)
  base_run : runOn Stage.canonicalizeDevice.action affine = (.ok (), base)
  lockIds_run : runOn Stage.assignLockIds.action base = (.ok (), lockIds)
  processes_run : runOn Stage.registerObjectFifos.action lockIds = (.ok (), processes)
  fifos_run : runOn Stage.lowerObjectFifos.action processes = (.ok (), fifos)
  broadcasts_run : runOn Stage.broadcastPackets.action fifos = (.ok (), broadcasts)
  packets_run : runOn Stage.routePacketFlows.action broadcasts = (.ok (), packets)
  multicasts_run : runOn Stage.lowerMulticast.action packets = (.ok (), q)

/-- The stages up to the layout of memory go through the programs of a lowering run. -/
theorem exists_loweringRun (hp : p.Sound) (hvalues : p.definedValues.Nodup)
    (hdetached : p.detached = []) (h : Pipeline.runStages loweringStages p = (.ok (), q)) :
    Nonempty (LoweringRun p q) := by
  obtain ⟨p₁, h₁, h⟩ := Pipeline.runStages_cons_ok.1 h
  obtain ⟨p₂, h₂, h⟩ := Pipeline.runStages_cons_ok.1 h
  obtain ⟨p₃, h₃, h⟩ := Pipeline.runStages_cons_ok.1 h
  obtain ⟨p₄, h₄, h⟩ := Pipeline.runStages_cons_ok.1 h
  obtain ⟨p₅, h₅, h⟩ := Pipeline.runStages_cons_ok.1 h
  obtain ⟨p₆, h₆, h⟩ := Pipeline.runStages_cons_ok.1 h
  obtain ⟨p₇, h₇, h⟩ := Pipeline.runStages_cons_ok.1 h
  obtain ⟨p₈, h₈, h⟩ := Pipeline.runStages_cons_ok.1 h
  obtain ⟨-, rfl⟩ : _ ∧ p₈ = q := Prod.mk.inj h
  exact ⟨⟨p₁, p₂, p₃, p₄, p₅, p₆, p₇, hp, hvalues, hdetached, h₁, h₂, h₃, h₄, h₅, h₆, h₇, h₈⟩⟩

namespace LoweringRun

variable (c : LoweringRun p q)

/-- What stands at the end of the first two stages: one device at least, and no affine operation. -/
theorem base_ok : p.Edits .affine c.affine ∧ c.affine.Wraps c.base ∧ c.base.Sound ∧
    c.base.definedValues.Nodup ∧ ∀ id ∈ c.base.walk, (c.base.op id).dialect ≠ "affine" :=
  lowered_base c.sound c.values c.detached c.affine_run c.base_run

/-- The program in devices is sound. -/
theorem base_sound : c.base.Sound := c.base_ok.2.2.1

/-- The program in devices defines no value twice. -/
theorem base_values : c.base.definedValues.Nodup := c.base_ok.2.2.2.1

/-- Locks get their identifiers by the edits of their stage. -/
theorem lockIds_edits : c.base.Edits .lockIds c.lockIds :=
  (assignLockIds_edits c.base_sound c.base_values c.lockIds_run).1

/-- The program with lock identifiers is sound. -/
theorem lockIds_sound : c.lockIds.Sound := c.lockIds_edits.sound c.base_sound

/-- Processes become loops by the edits of their stage. -/
theorem processes_edits : c.lockIds.Edits .processes c.processes :=
  (registerProcesses_edits c.lockIds_sound c.processes_run).1

/-- The program with loops for processes is sound. -/
theorem processes_sound : c.processes.Sound := c.processes_edits.sound c.lockIds_sound

/-- The program with loops for processes defines no value twice. -/
theorem processes_values : c.processes.definedValues.Nodup :=
  c.processes_edits.nodup c.lockIds_sound (c.lockIds_edits.nodup c.base_sound c.base_values)

/-- FIFOs become buffers, locks and streams by the edits of their stage. -/
theorem fifos_edits : c.processes.Edits .fifos c.fifos :=
  (lowerObjectFifos_edits c.processes_sound c.processes_values c.fifos_run).1

/-- The program without FIFOs is sound. -/
theorem fifos_sound : c.fifos.Sound := c.fifos_edits.sound c.processes_sound

/-- Broadcasts become packet flows by the edits of their stage. -/
theorem broadcasts_edits : c.fifos.Edits .broadcasts c.broadcasts :=
  (lowerBroadcasts_edits c.fifos_sound c.broadcasts_run).1

/-- The program without broadcasts is sound. -/
theorem broadcasts_sound : c.broadcasts.Sound := c.broadcasts_edits.sound c.fifos_sound

/-- Packet flows become rules by the edits of their stage. -/
theorem packets_edits : c.broadcasts.Edits .packets c.packets :=
  (routePacketFlows_edits c.broadcasts_sound c.packets_run).1

/-- The program without packet flows is sound. -/
theorem packets_sound : c.packets.Sound := c.packets_edits.sound c.broadcasts_sound

/-- Multicasts become flows by the edits of their stage. -/
theorem multicasts_edits : c.packets.Edits .multicasts q :=
  (lowerMulticasts_edits c.packets_sound c.multicasts_run).1

end LoweringRun

/-- Each of the stages that replace operations of devices gets one more name out of them. -/
theorem LoweringRun.lowered (c : LoweringRun p q) : q.Lowered loweredNames := by
  obtain ⟨-, hwraps, hsound, hnodup, hnone⟩ := c.base_ok
  have h₃ := lowered_lockIds hsound hnodup hwraps.devices hnone c.lockIds_run
  obtain ⟨he₄, hn₄⟩ := registerProcesses_edits h₃.sound c.processes_run
  have h₄ := (h₃.edits EditRule.processes_lowers (by decide) he₄).cons hn₄
  obtain ⟨he₅, hn₅⟩ := lowerObjectFifos_edits h₄.sound h₄.values c.fifos_run
  have h₅ := (h₄.edits EditRule.fifos_lowers (by decide) he₅).cons hn₅
  obtain ⟨he₆, hn₆⟩ := lowerBroadcasts_edits h₅.sound c.broadcasts_run
  have h₆ := (h₅.edits EditRule.broadcasts_lowers (by decide) he₆).cons hn₆
  obtain ⟨he₇, hn₇⟩ := routePacketFlows_edits h₆.sound c.packets_run
  have h₇ := (h₆.edits EditRule.packets_lowers (by decide) he₇).cons hn₇
  obtain ⟨he₈, hn₈⟩ := lowerMulticasts_edits h₇.sound c.multicasts_run
  exact (h₇.edits EditRule.multicasts_lowers (by decide) he₈).cons hn₈

/-- What the parser made is lowered first, and then buffers are laid out and structured control flow
is renamed. -/
theorem Pipeline.canonicalize_run {source : String} {m : Program}
    (hparse : Source.parse source = .ok p) (h : canonicalize.run p = (.ok (), m)) :
    ∃ q r, Nonempty (LoweringRun p q) ∧ runOn Stage.assignBufferAddresses.action q = (.ok (), r) ∧
      runOn Stage.lowerStructured.action r = (.ok (), m) := by
  obtain ⟨hp, hvalues, hdetached⟩ := Source.parse_ok hparse
  have hrun : runStages (loweringStages ++ [.assignBufferAddresses, .lowerStructured]) p =
    (.ok (), m) := h
  obtain ⟨q, hq, hrun⟩ := Pipeline.runStages_append_ok.1 hrun
  obtain ⟨r, hbuffers, hrun⟩ := Pipeline.runStages_cons_ok.1 hrun
  obtain ⟨s, hstructured, hrun⟩ := Pipeline.runStages_cons_ok.1 hrun
  obtain ⟨-, rfl⟩ : _ ∧ s = m := Prod.mk.inj hrun
  exact ⟨q, r, exists_loweringRun hp hvalues hdetached hq, hbuffers, hstructured⟩

/-- The canonical form of a source is reached by a lowering run, the layout of memory and the
lowering of loops. -/
theorem canonicalizeSource_run {source : String} {m : Program}
    (hparse : Source.parse source = .ok p) (h : canonicalizeSource source = .ok m) :
    ∃ q r, Nonempty (LoweringRun p q) ∧ runOn Stage.assignBufferAddresses.action q = (.ok (), r) ∧
      runOn Stage.lowerStructured.action r = (.ok (), m) := by
  obtain ⟨p', hparse', hrun⟩ := canonicalizeSource_ok h
  obtain rfl : p = p' := Except.ok.inj (hparse.symm.trans hparse')
  exact Pipeline.canonicalize_run hparse hrun

/-- A program in canonical form: it has a device, no affine and no structured operation; in its
devices, none of the operations is left that stages replace, every lock has an identifier and every
buffer a positive size and an address that is not negative. -/
structure Program.Canonical (p : Program) : Prop where
  devices : p.devices ≠ []
  affine : ∀ id ∈ p.walk, (p.op id).dialect ≠ "affine"
  structured : ∀ id ∈ p.walk, (p.op id).name ∉ structuredNames
  lowered : ∀ device ∈ p.devices, ∀ id ∈ p.walkIn device, (p.op id).name ∉ loweredNames
  locks : ∀ device ∈ p.devices, ∀ lock ∈ p.findIn device "aie.lock", ∃ n,
    (p.op lock).lockId? = some n
  buffers : ∀ device ∈ p.devices, ∀ buffer ∈ p.findIn device "aie.buffer", ∃ size address,
    (p.op buffer).intAttr? "size" = some size ∧ 0 < size ∧
      (p.op buffer).intAttr? "address" = some address ∧ 0 ≤ address

/-- Buffers stay where they are when structured control flow is renamed. -/
theorem laidOut_structured (hp : p.Sound) (hlaid : ∀ device ∈ p.devices, p.LaidOut device)
    (h : p.Edits .structured q) : ∀ device ∈ q.devices, q.LaidOut device := fun device hdevice =>
  h.forall_walkIn EditRule.structured_keeps_laidOut hp (Program.mem_walk_of_mem_devices hdevice)
    (hlaid device ((h.mem_devices EditRule.structured_sparesDevices hp).1 hdevice))

/-- The last two stages make a program canonical. -/
theorem canonical_of_lowered (hp : p.Lowered loweredNames) {r : Program}
    (hbuffers : runOn Stage.assignBufferAddresses.action p = (.ok (), r))
    (hstructured : runOn Stage.lowerStructured.action r = (.ok (), q)) : q.Canonical := by
  obtain ⟨her, hlaid, -⟩ := assignBufferAddresses_edits hp.sound hp.values hbuffers
  have hr := hp.edits EditRule.addresses_lowers (by decide) her
  obtain ⟨heq, hnone⟩ := lowerStructured_edits hr.sound hstructured
  have hq := hr.edits EditRule.structured_lowers (by decide) heq
  refine ⟨hq.devices, hq.affine, fun id hid hmem => ?_, hq.gone,
    fun device hdevice lock hlock => ?_, fun device hdevice buffer hbuffer => ?_⟩
  · exact beq_eq_false_iff_ne.1 (hnone id hid _ hmem) rfl
  · obtain ⟨hin, hname⟩ := List.mem_filter.1 hlock
    exact Option.isSome_iff_exists.1 (hq.locks device hdevice lock hin hname)
  · obtain ⟨hin, hname⟩ := List.mem_filter.1 hbuffer
    obtain ⟨size, address, hsize, hpos, haddress, hfits⟩ :=
      laidOut_structured hr.sound hlaid heq device hdevice buffer hin hname
    exact ⟨size, address, hsize, hpos, haddress, hfits.1⟩

/-- When the locks of all devices have identifiers, the layout of the buffers fails for other
reasons. -/
theorem assignBufferAddresses_notLockIdMissing (hp : p.Lowered gone) {e : StageError}
    (h : runOn Stage.assignBufferAddresses.action p = (.error e, q)) : e.NotLockIdMissing := by
  change runOn (Stage.onEachDevice TileFlow.assignBufferAddresses) p = _ at h
  rw [Stage.onEachDevice] at h
  rcases bind_error.1 h with h | ⟨_, _, hget, h⟩
  · cases h
  cases hget
  have hspares := EditRule.addresses_sparesDevices
  obtain ⟨device, hdevice, r, hr, h⟩ := forM_error (I := p.Edits .addresses) h .refl
    fun device hdevice r s hr hrun => hr.trans (assignBufferAddresses_ok (hr.sound hp.sound) hrun).1
  refine assignBufferAddresses_failsOnly (fun lock hlock => ?_) h
  obtain ⟨hin, hname⟩ := List.mem_filter.1 hlock
  exact (hp.edits EditRule.addresses_lowers (by simp) hr).locks device
    ((hr.mem_devices hspares hp.sound).2 hdevice) lock hin hname

/-- **The pipeline makes programs canonical.** Whatever is left of a source is in canonical form,
and no source is given up because a lock has no identifier when the buffers are laid out. -/
theorem canonicalizeSource_canonical (source : String) :
    (∀ m, canonicalizeSource source = .ok m → m.Canonical) ∧
      ∀ label, canonicalizeSource source ≠
        .error (.stageFailed Stage.assignBufferAddresses.name (.lockIdMissing label)) := by
  have hsplit : Pipeline.canonicalize.stages =
      loweringStages ++ [.assignBufferAddresses, .lowerStructured] := rfl
  have hnames : ∀ stage ∈ .lowerStructured :: loweringStages,
      stage.name ≠ Stage.assignBufferAddresses.name := by decide
  refine ⟨fun m h => ?_, fun label h => ?_⟩
  · obtain ⟨p, hparse, -⟩ := canonicalizeSource_ok h
    obtain ⟨q, r, ⟨c⟩, hbuffers, hstructured⟩ := canonicalizeSource_run hparse h
    exact canonical_of_lowered c.lowered hbuffers hstructured
  · obtain ⟨p, q, hparse, hrun⟩ := canonicalizeSource_error h
    obtain ⟨hp, hvalues, hdetached⟩ := Source.parse_ok hparse
    rw [Pipeline.run, hsplit] at hrun
    rcases Pipeline.runStages_append_error.1 hrun with hrun | ⟨r, hr, hrun⟩
    · obtain ⟨stage, hstage, cause, heq⟩ := Pipeline.exists_stage_of_error hrun
      rw [CompileError.stageFailed.injEq] at heq
      exact hnames stage (List.mem_cons_of_mem _ hstage) heq.1.symm
    · obtain ⟨c⟩ := exists_loweringRun hp hvalues hdetached hr
      rcases Pipeline.runStages_cons_error.1 hrun with ⟨cause, hfail, heq⟩ | ⟨s, -, hrun⟩
      · rw [CompileError.stageFailed.injEq] at heq
        exact assignBufferAddresses_notLockIdMissing c.lowered hfail label heq.2.symm
      · obtain ⟨stage, hstage, cause, heq⟩ := Pipeline.exists_stage_of_error hrun
        rw [CompileError.stageFailed.injEq] at heq
        obtain rfl := List.mem_singleton.1 hstage
        exact hnames _ List.mem_cons_self heq.1.symm

/-- Two tiles with a FIFO, and an affine conditional, without a device. -/
def fifoSource : String :=
  "%a = aie.tile(0, 2)\n%b = aie.tile(0, 3)\n" ++
  "aie.objectfifo(%a, %b) \x7bsize = 16, sym_name = f\x7d\naffine.if \x7b affine.yield \x7d"

/-- The tiles with a FIFO get a device, two locks and two buffers. -/
theorem canonicalizeSource_canonical_fifo : ∃ m, canonicalizeSource fifoSource = .ok m ∧
    m.Canonical ∧ (m.findAll "aie.lock").length = 2 ∧ (m.findAll "aie.buffer").length = 2 := by
  have hcounts : ∃ m, canonicalizeSource fifoSource = .ok m ∧
      (m.findAll "aie.lock").length = 2 ∧ (m.findAll "aie.buffer").length = 2 :=
    exists_ok_of_any (by decide +kernel)
  obtain ⟨m, hm, hcounts⟩ := hcounts
  exact ⟨m, hm, (canonicalizeSource_canonical fifoSource).1 m hm, hcounts⟩

end TileFlow
