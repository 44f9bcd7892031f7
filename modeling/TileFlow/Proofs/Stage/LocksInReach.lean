import TileFlow.Proofs.Fifo.Manned
import TileFlow.Proofs.Emit.Translatable

/-!
# Locks within reach of their users

When the pipeline is through, the stage that resolves the lock uses of cores wants every one of them
to name a lock at most one step away. The locks that cores use are those that the source has them
use, and those of the FIFOs that they access. The latter are on the consumer tile: a core on that
tile reaches them wherever the producer is, and a core on the producer tile if the two are next to
each other. They are there in the end, with identifiers, unless something that the pipeline discards
hides them.

## Main definitions

* `Program.deviceBlocks`: the blocks that become the contents of devices.
* `Program.UsersInPlace`: cores are on tiles, use locks nearby, and access FIFOs on their side.
* `Program.LocksNearby`: locks that cores use get identifiers, and FIFOs that they write are short.

## Main results

* `LoweringRun.locksInReach`: what the stages between make of cores that are near their FIFOs.
* `LoweringRun.base_blocks`: what is in devices is what was in the blocks of the source.
* `canonicalizeSource_locksInReach`: lock uses of canonical programs are resolved.
-/

namespace TileFlow

open TileFlow.Action

variable {p l r m : Program} {device id : OpId} {tile : Tile} {near : String → Tile → Prop}

/-! ### Conditions on a source -/

namespace Program

/-- The blocks that become the contents of devices: those of the devices, or the body if there is
none. -/
def deviceBlocks (p : Program) : List (Option OpId) :=
  if p.devices = [] then [none] else p.devices.map some

/-- The operations of a block, at any depth. -/
def blockOps (p : Program) (block : Option OpId) : List OpId :=
  (p.block block).preorder

/-- The operations of a block with a name. -/
def namedIn (p : Program) (block : Option OpId) (name : String) : List OpId :=
  (p.blockOps block).filter fun id => (p.op id).is name

/-- The first FIFO of a block with a name. -/
def fifoIn? (p : Program) (block : Option OpId) (name : String) : Option OpId :=
  (p.namedIn block "aie.objectfifo").find? fun id => (p.op id).textAttr? "sym_name" == some name

/-- The tile of a side of a FIFO. -/
def sideTile? (p : Program) (fifo : OpId) (side : Side) : Option Tile :=
  ((p.op fifo).operandValue? side.tileIndex).bind p.tileOf?

/-- The FIFO that a written access means, and the side that it is made on. -/
def writtenAccess? (p : Program) (block : Option OpId) (id : OpId) : Option (OpId × Side) :=
  if (Access.of? (p.op id)).isSome then
    (((p.op id).operandSymbol? 0).bind (p.fifoIn? block)).map (·, (p.op id).accessSide)
  else none

/-- The FIFO that a process is registered on, and the side. -/
def registeredAccess? (p : Program) (block : Option OpId) (id : OpId) : Option (OpId × Side) :=
  (((p.op id).operandSymbol? 0).bind (p.fifoIn? block)).bind fun fifo =>
    (Side.ofName? (((p.op id).operandText? 1).getD "consume")).map (fifo, ·)

/-- Whether a lock use names a lock at most one step from a core. -/
def UsesNearby (p : Program) (core use : OpId) : Prop :=
  ∃ value ∈ (p.op use).operandValue? 0, ∃ lock ∈ p.definingOp? value,
    (p.op lock).is "aie.lock" = true ∧ ∃ lockTile ∈ p.owningTile? lock,
      ∃ tile ∈ p.owningTile? core, lockTile.distance tile ≤ 1

instance (core use : OpId) : Decidable (p.UsesNearby core use) :=
  inferInstanceAs (Decidable (∃ value ∈ (p.op use).operandValue? 0, ∃ lock ∈ p.definingOp? value,
    (p.op lock).is "aie.lock" = true ∧ ∃ lockTile ∈ p.owningTile? lock,
      ∃ tile ∈ p.owningTile? core, lockTile.distance tile ≤ 1))

/-- Whether the cores of a block that name the tile of a side of a FIFO, and the cores around these,
are on this tile. -/
def SideManned (p : Program) (block : Option OpId) (fifo : OpId) (side : Side) : Prop :=
  ∃ tile ∈ p.sideTile? fifo side, ∀ inner ∈ p.namedIn block "aie.core",
    (p.op inner).operandValue? 0 = (p.op fifo).operandValue? side.tileIndex →
    ∀ core ∈ p.namedIn block "aie.core", core = inner ∨ inner ∈ p.walkIn core →
      p.owningTile? core = some tile

instance (block : Option OpId) (fifo : OpId) (side : Side) :
    Decidable (p.SideManned block fifo side) :=
  inferInstanceAs (Decidable (∃ tile ∈ p.sideTile? fifo side, ∀ inner ∈ p.namedIn block "aie.core",
    (p.op inner).operandValue? 0 = (p.op fifo).operandValue? side.tileIndex →
    ∀ core ∈ p.namedIn block "aie.core", core = inner ∨ inner ∈ p.walkIn core →
      p.owningTile? core = some tile))

/-- Whether cores are on tiles, use locks at most one step away, and access FIFOs on their own side.
A registered process is in the core of its tile, and in the cores around this one. -/
structure UsersInPlace (p : Program) : Prop where
  placed : ∀ core ∈ p.findAll "aie.core", (p.owningTile? core).isSome = true
  uses : ∀ core ∈ p.findAll "aie.core", ∀ use ∈ p.findIn core "aie.use_lock",
    p.UsesNearby core use
  written : ∀ block ∈ p.deviceBlocks, ∀ core ∈ p.namedIn block "aie.core", ∀ id ∈ p.walkIn core,
    ∀ access ∈ p.writtenAccess? block id, p.owningTile? core = p.sideTile? access.1 access.2
  registered : ∀ block ∈ p.deviceBlocks,
    ∀ id ∈ p.namedIn block "aie.objectfifo.register_process",
    ∀ access ∈ p.registeredAccess? block id, p.SideManned block access.1 access.2

/-- Whether the tiles of a FIFO are at most one step from each other. -/
def IsShort (p : Program) (fifo : OpId) : Prop :=
  ∃ producer ∈ p.sideTile? fifo .produce, ∃ consumer ∈ p.sideTile? fifo .consume,
    consumer.distance producer ≤ 1

instance : Decidable (p.IsShort id) :=
  inferInstanceAs (Decidable (∃ producer ∈ p.sideTile? id .produce,
    ∃ consumer ∈ p.sideTile? id .consume, consumer.distance producer ≤ 1))

/-- Whether the locks that cores use have an identifier or are in a device, where they get one, and
the FIFOs that are accessed on the side of the producer are short. -/
structure LocksNearby (p : Program) : Prop where
  numbered : ∀ core ∈ p.findAll "aie.core", ∀ use ∈ p.findIn core "aie.use_lock",
    ∀ value ∈ (p.op use).operandValue? 0, ∀ lock ∈ p.definingOp? value,
      (p.op lock).lockId?.isSome = true ∨ ∃ block ∈ p.deviceBlocks, lock ∈ p.blockOps block
  written : ∀ block ∈ p.deviceBlocks, ∀ core ∈ p.namedIn block "aie.core", ∀ id ∈ p.walkIn core,
    ∀ access ∈ p.writtenAccess? block id, access.2 = .produce → p.IsShort access.1
  registered : ∀ block ∈ p.deviceBlocks,
    ∀ id ∈ p.namedIn block "aie.objectfifo.register_process",
    ∀ access ∈ p.registeredAccess? block id, access.2 = .produce → p.IsShort access.1

instance : Decidable p.UsersInPlace :=
  decidable_of_iff (_ ∧ _ ∧ _ ∧ _)
    ⟨fun h => ⟨h.1, h.2.1, h.2.2.1, h.2.2.2⟩, fun h => ⟨h.placed, h.uses, h.written, h.registered⟩⟩

instance : Decidable p.LocksNearby :=
  decidable_of_iff (_ ∧ _ ∧ _)
    ⟨fun h => ⟨h.1, h.2.1, h.2.2⟩, fun h => ⟨h.numbered, h.written, h.registered⟩⟩

end Program

/-! ### The run -/

/-- No stage up to the lowering of FIFOs makes a FIFO. -/
theorem EditRule.numbering_exposes : EditRule.numbering.Exposes ["aie.objectfifo"] :=
  any_exposes (by
    simpa using ⟨lockIds_names.exposes (by decide), processes_names.exposes (by decide),
      fifos_names.exposes (by decide)⟩)

namespace LoweringRun

variable (c : LoweringRun p l)
  (hhidden : c.base.HidesNone discardedNames ["aie.objectfifo"]) (hdevice : device ∈ c.base.devices)

include hhidden hdevice

/-- Numbering locks leaves the cores of a device, and registered processes join them. -/
theorem processes_served (hready : m.ProcessesReady near device c.base c.base) :
    m.CoresServed near device c.processes ∧ c.base.SameFifos device c.processes := by
  have hlocks := c.lockIds_edits
  have hsound := c.base_sound
  have htree := hlocks.tree c.base_children.1
  have hdeviceL := (hlocks.mem_devices EditRule.lockIds_sparesDevices hsound).2 hdevice
  have hwalk := Program.mem_walk_of_mem_devices hdevice
  have hwalkL := Program.mem_walk_of_mem_devices hdeviceL
  obtain ⟨t⟩ := Stage.onEachDevice_turn (s := .registerObjectFifos) rfl
    EditRule.processes_sparesDevices htree hdeviceL c.processes_run
    fun other r u hr _ hother hrun => registerProcesses_device hr hother hrun
  -- Nothing below a registration is a FIFO, so that erasing it loses none.
  have hbare : t.before.HidesNone ["aie.objectfifo.register_process"] ["aie.objectfifo"] :=
    fun x hx hname => hhidden.edits EditRule.numbering_keepsValues EditRule.numbering_exposes hsound
      ((hlocks.any (by simp)).trans (t.edits.any (by simp))) x hx
      (by rw [List.mem_singleton.1 hname]; decide)
  have hlockIds := hready.leaves hsound
    (hlocks.leavesCores EditRule.lockIds_leavesCores hsound hwalkL)
    (hlocks.lockIds_sameFifos hsound hwalk hwalkL)
  have hbefore := hlockIds.leaves c.lockIds_sound (t.leaves_before c.lockIds_sound)
    (t.sameFifos_before c.lockIds_sound hwalkL)
  have hafter := t.own.processes_sameFifos t.before_sound hbare
    (Program.mem_walk_of_mem_devices t.mem_before) (Program.mem_walk_of_mem_devices t.mem_after)
  exact ⟨(registerProcesses_served (t.edits.tree htree) t.mem_before hbare hbefore t.run).leaves
    t.leaves_after, (hbefore.fifos.trans hafter).trans t.sameFifos_after⟩

/-- Where FIFOs are replaced, their accesses in cores near them become uses of locks in reach, and
the stages after it leave these. -/
theorem fifos_served (hbuffers : runOn Stage.assignBufferAddresses.action l = (.ok (), r))
    (hstructured : runOn Stage.lowerStructured.action r = (.ok (), m))
    (hserved : m.CoresServed
      (c.base.NearFifo m (c.base.findIn device "aie.objectfifo")) device c.processes)
    (hfifos : c.base.SameFifos device c.processes) :
    m.CoresServed (c.base.NearFifo m []) device m := by
  have hsound := c.base_sound
  have hnumbering : c.base.Edits .numbering c.processes :=
    (c.lockIds_edits.any (by simp)).trans (c.processes_edits.any (by simp))
  have hafter := c.afterFifos_edits hbuffers hstructured
  have hfromLockIds := c.fromLockIds_edits hbuffers hstructured
  have hdeviceP := (hnumbering.mem_devices EditRule.numbering_sparesDevices hsound).2 hdevice
  have hdeviceM := (hfromLockIds.mem_devices EditRule.fromLockIds_sparesDevices hsound).2 hdevice
  obtain ⟨t⟩ := Stage.onEachDevice_turn (s := .lowerObjectFifos) rfl
    EditRule.fifos_sparesDevices (hnumbering.tree c.base_children.1) hdeviceP c.fifos_run
    fun other s u hs hedits hother hrun =>
      lowerObjectFifos_device hs (hedits.nodup c.processes_sound c.processes_values) hother hrun
  have hbefore := hfifos.trans
    (t.sameFifos_before c.processes_sound (Program.mem_walk_of_mem_devices hdeviceP))
  have hleft : c.base.FifosLeft device (c.base.findIn device "aie.objectfifo") t.before :=
    { sound := t.before_sound
      values := t.edits.nodup c.processes_sound c.processes_values
      inDevice := t.mem_before
      hidden := hhidden.edits EditRule.numbering_keepsValues EditRule.numbering_exposes hsound
        (hnumbering.trans (t.edits.any (by simp)))
      found := fun fifo hfifo => ⟨hbefore.list ▸ hfifo, hbefore.header fifo hfifo⟩ }
  have hrun := t.run
  rw [lowerObjectFifos, get_bind_ok, hbefore.list] at hrun
  have hlowered := (hserved.leaves (t.leaves_before c.processes_sound)).lowerFifos hleft
    (hsound.nodup_findIn (Program.mem_walk_of_mem_devices hdevice) _)
    (hfromLockIds.nodup hsound c.base_values) hrun
    (t.rest.fromLockIds.trans (hafter.any (by simp)))
  exact (hlowered.leaves t.leaves_after).leaves (hafter.leavesCores
    EditRule.afterFifos_leavesCores c.fifos_sound (Program.mem_walk_of_mem_devices hdeviceM))

/-- The lock uses in cores are in reach at the end if the cores are near the FIFOs that they access
and on their tiles. -/
theorem locksInReach (hbuffers : runOn Stage.assignBufferAddresses.action l = (.ok (), r))
    (hstructured : runOn Stage.lowerStructured.action r = (.ok (), m))
    (hready : m.ProcessesReady (c.base.NearFifo m (c.base.findIn device "aie.objectfifo"))
      device c.base c.base) : m.LocksInReach device := by
  obtain ⟨hserved, hfifos⟩ := c.processes_served hhidden hdevice hready
  exact (c.fifos_served hhidden hdevice hbuffers hstructured hserved hfifos).locksInReach

end LoweringRun

/-! ### The source and the program in a device -/

/-- The operations of a block that becomes a device are part of the body. -/
theorem Program.mem_walk_of_mem_blockOps {block : Option OpId} (hp : p.Sound)
    (hblock : block ∈ p.deviceBlocks) (hid : id ∈ p.blockOps block) : id ∈ p.walk := by
  rw [Program.deviceBlocks] at hblock
  split at hblock
  · obtain rfl := List.mem_singleton.1 hblock
    exact hid
  · obtain ⟨device, hdevice, rfl⟩ := List.mem_map.1 hblock
    exact hp.mem_walk_of_walkIn (Program.mem_walk_of_mem_devices hdevice) hid

namespace LoweringRun

variable (c : LoweringRun p l) {block : Option OpId} {name : String}

/-- Devices hold the blocks of the source that become their contents. -/
theorem base_blocks : c.base.devices.map c.base.walkIn = p.deviceBlocks.map p.blockOps := by
  obtain ⟨hedits, -⟩ := c.base_ok
  have hsound := hedits.sound c.sound
  obtain ⟨hbody, hdetached⟩ := hedits.body_eq (fun _ _ _ hop => hop) fun _ _ hop => hop
  have haffine : c.affine.devices = p.devices := by
    rw [Program.devices, hbody, Program.devices]
    refine List.filter_congr fun id hid => hedits.is_eq c.sound (fun _ _ _ hop =>
      EditRule.affine_is hop (by decide)) (c.sound.created id ?_)
    exact Forest.mem_preorder_of_mem_roots hid
  rcases wrapInDevice_cases hsound (hdetached.trans c.detached) c.base_run with
    ⟨hsome, heq⟩ | ⟨hnone, hsingle, -, -, -, hdevice, -⟩
  · rw [haffine] at hsome
    rw [Program.deviceBlocks, if_neg hsome, heq, haffine, List.map_map]
    refine List.map_congr_left fun device _ => ?_
    simp only [Program.walkIn, Program.below, hbody, hdetached, Function.comp_apply,
      Program.blockOps, Program.block]
  · rw [haffine] at hnone
    have hdevices : c.base.devices = [c.affine.slots.size] := by
      rw [Program.devices, hsingle, Forest.single, Forest.roots, Forest.roots]
      exact List.filter_cons_of_pos (by rw [hdevice]; rfl)
    have hwalk : c.base.walkIn c.affine.slots.size = p.walk := by
      rw [Program.walkIn, Program.below, hsingle, Forest.single, Forest.below?, if_pos rfl, hbody]
      rfl
    rw [Program.deviceBlocks, if_pos hnone, hdevices, List.map_singleton, hwalk]
    rfl

/-- A device comes from a block of the source, and holds what stood there. -/
theorem exists_block (hdevice : device ∈ c.base.devices) :
    ∃ block ∈ p.deviceBlocks, c.base.walkIn device = p.blockOps block := by
  have hmem := List.mem_map_of_mem (f := c.base.walkIn) hdevice
  rw [c.base_blocks] at hmem
  obtain ⟨block, hblock, heq⟩ := List.mem_map.1 hmem
  exact ⟨block, hblock, heq.symm⟩

/-- A block of the source becomes a device, which holds what stood there. -/
theorem exists_device (hblock : block ∈ p.deviceBlocks) :
    ∃ device ∈ c.base.devices, c.base.walkIn device = p.blockOps block := by
  have hmem := List.mem_map_of_mem (f := p.blockOps) hblock
  rw [← c.base_blocks] at hmem
  exact List.mem_map.1 hmem

variable (hblock : block ∈ p.deviceBlocks) (hwalk : c.base.walkIn device = p.blockOps block)

include hblock hwalk

/-- What is found in a device by a name that is not affine is found in its block. -/
theorem base_findIn (hname : ∀ pair ∈ affineNames, pair.1 ≠ name ∧ pair.2 ≠ name) :
    c.base.findIn device name = p.namedIn block name := by
  rw [Program.findIn, hwalk, Program.namedIn]
  exact List.filter_congr fun id hid => c.base_is hname
    (c.sound.created id (Program.mem_walk_of_mem_blockOps c.sound hblock hid))

/-- What is found in a device is found in its block of the source. -/
theorem base_found (hname : ∀ pair ∈ affineNames, pair.1 ≠ name ∧ pair.2 ≠ name)
    (hid : id ∈ c.base.findIn device name) : id ∈ p.namedIn block name ∧ id ∈ p.walk ∧
      (p.op id).SameHeader (c.base.op id) := by
  have his := (List.mem_filter.1 hid).2
  rw [c.base_findIn hblock hwalk hname] at hid
  have hmem := Program.mem_walk_of_mem_blockOps c.sound hblock (List.mem_filter.1 hid).1
  exact ⟨hid, hmem, c.base_sameHeader hname (c.sound.created id hmem) his⟩

/-- A FIFO is found in a device when it is found in its block. -/
theorem base_fifo? (name : String) : c.base.fifo? device name = p.fifoIn? block name := by
  have hfinds : c.base.findIn device "aie.objectfifo" = p.namedIn block "aie.objectfifo" :=
    c.base_findIn hblock hwalk (by decide)
  rw [Program.fifo?, hfinds, Program.fifoIn?]
  refine List.find?_congr fun fifo hfifo => ?_
  rw [(c.base_found hblock hwalk (by decide) (hfinds ▸ hfifo)).2.2.textAttr?]

end LoweringRun

/-- A core on the tile of a side of a FIFO is near its consumer: it is on that tile, or the tiles of
the FIFO are next to each other. -/
theorem Program.nearConsumer_of_side {fifo : OpId} {side : Side}
    (hplaces : ∀ value tile, p.tileOf? value = some tile → m.placeOf? value = some tile)
    (htile : p.sideTile? fifo side = some tile) (hshort : side = .produce → p.IsShort fifo) :
    m.NearConsumer (p.op fifo) tile := by
  have hconsumer : ∀ consumer, p.sideTile? fifo .consume = some consumer →
      ∃ value, (p.op fifo).operandValue? 1 = some value ∧ m.placeOf? value = some consumer :=
    fun consumer h => by
      obtain ⟨value, hvalue, htile⟩ := Option.bind_eq_some_iff.1 h
      exact ⟨value, hvalue, hplaces value consumer htile⟩
  cases side with
  | consume =>
      obtain ⟨value, hvalue, hplace⟩ := hconsumer tile htile
      exact ⟨value, tile, hvalue, hplace, by simp⟩
  | produce =>
      obtain ⟨producer, hproducer, consumer, hside, hdistance⟩ := hshort rfl
      obtain rfl : tile = producer := Option.some.inj (htile.symm.trans hproducer)
      obtain ⟨value, hvalue, hplace⟩ := hconsumer consumer hside
      exact ⟨value, consumer, hvalue, hplace, hdistance⟩

namespace LoweringRun

variable (c : LoweringRun p l) {block : Option OpId}
  (hbuffers : runOn Stage.assignBufferAddresses.action l = (.ok (), r))
  (hstructured : runOn Stage.lowerStructured.action r = (.ok (), m))
  (hnone : p.DefinesNone discardedNames)

include c hbuffers hstructured

/-- The canonical program defines no value twice. -/
theorem canonical_values : m.definedValues.Nodup :=
  (c.fromLockIds_edits hbuffers hstructured).nodup c.base_sound c.base_values

include hnone

/-- Values of the source are defined by the same operations at the end. -/
theorem canonical_resolves : m.Resolves p :=
  ((c.fromLockIds_edits hbuffers hstructured).resolves_of_definesNone
    EditRule.fromLockIds_keepsValues c.base_sound (c.base_definesNone hnone)).trans c.base_resolves

/-- A value names the same place in the canonical program as in the source. -/
theorem canonical_place {value : String} (h : p.placeOf? value = some tile) :
    m.placeOf? value = some tile :=
  (c.canonical_resolves hbuffers hstructured hnone).placeOf?
    (c.canonical_values hbuffers hstructured) h

/-- An operation on a tile puts what has its operands on the same tile at the end. -/
theorem canonical_seat {op : Operation} (hop : (p.op id).SameHeader op)
    (h : p.owningTile? id = some tile) : m.seat? op = some tile := by
  obtain ⟨value, hvalue, hplace⟩ := Option.bind_eq_some_iff.1 ((p.owningTile?_eq id).symm.trans h)
  rw [Program.seat?, hop.operandValue?, hvalue, Option.bind_some]
  exact c.canonical_place hbuffers hstructured hnone hplace

/-- A lock of the source has an identifier at the end if it has one or is in a device. -/
theorem canonical_lockId {lock : OpId} (hmem : lock ∈ p.walk)
    (hkept : lock ∈ m.walk) (his : (p.op lock).is "aie.lock" = true)
    (hnumbered : (p.op lock).lockId?.isSome = true ∨
      ∃ block ∈ p.deviceBlocks, lock ∈ p.blockOps block) : (m.op lock).lockId?.isSome = true := by
  have hedits := c.fromLockIds_edits hbuffers hstructured
  have hleaves := EditRule.fromLockIds_leavesLocks
  have hlt := c.sound.created lock hmem
  have hltb := Nat.lt_of_lt_of_le hlt c.size_le
  have hisb : (c.base.op lock).is "aie.lock" = true := (c.base_is (by decide) hlt).trans his
  rcases hnumbered with hid | ⟨block, hblock, hin⟩
  · have hsame : ∀ q : Program, (q.op lock).operands = (p.op lock).operands →
        (q.op lock).lockId? = (p.op lock).lockId? := fun q h => by
      rw [Operation.lockId?, Operation.operandInt?, h]
      rfl
    have hbase := c.base_operands hlt
    rw [hsame m ((hedits.lock_operands hleaves c.base_sound hltb hisb
      (hsame c.base hbase ▸ hid)).trans hbase), hid]
  · obtain ⟨device, hdevice, hwalk⟩ := c.exists_device hblock
    have hdevicem := (hedits.mem_devices EditRule.fromLockIds_sparesDevices c.base_sound).2 hdevice
    have hinm : lock ∈ m.walkIn device :=
      ((hedits.evolves c.base_sound).walkIn device (Program.mem_walk_of_mem_devices hdevicem) lock
        hkept hltb).2 ⟨c.base_sound.created device (Program.mem_walk_of_mem_devices hdevice),
          hwalk ▸ hin⟩
    obtain ⟨tile, n, hslot, -⟩ := (c.numbered_canonical (c.base_definesNone hnone)
      (c.afterFifos_edits hbuffers hstructured) device hdevicem).placed lock
      (List.mem_filter.2 ⟨hinm, (hedits.is_eq c.base_sound hleaves.isLock hltb).trans hisb⟩)
    rw [(Program.lockSlot?_eq_some.1 hslot).2]
    rfl

/-- The lock of a use that is nearby in the source is within reach at the end. -/
theorem canonical_reachesLock {core use : OpId} (hnear : p.UsesNearby core use)
    (hseat : p.owningTile? core = some tile)
    (hnumbered : ∀ value ∈ (p.op use).operandValue? 0, ∀ lock ∈ p.definingOp? value,
      (p.op lock).lockId?.isSome = true ∨ ∃ block ∈ p.deviceBlocks, lock ∈ p.blockOps block) :
    ∃ value, (p.op use).operandValue? 0 = some value ∧ m.ReachesLock value tile := by
  obtain ⟨value, hvalue, lock, hlock, his, lockTile, hlockTile, _, hcoreTile, hdistance⟩ := hnear
  cases Option.some.inj (hseat.symm.trans hcoreTile)
  have hedits := c.fromLockIds_edits hbuffers hstructured
  obtain ⟨hmem, -⟩ := Program.mem_walk_of_definingOp? hlock
  obtain ⟨hlockm, hkeep⟩ := (c.canonical_resolves hbuffers hstructured hnone).definingOp?
    (c.canonical_values hbuffers hstructured) hlock
  obtain ⟨n, hn⟩ := Option.isSome_iff_exists.1 (c.canonical_lockId hbuffers hstructured hnone hmem
    (Program.mem_walk_of_definingOp? hlockm).1 his (hnumbered value hvalue lock hlock))
  refine ⟨value, hvalue, lock, n, lockTile, hlockm, ?_, hn, ?_, hdistance⟩
  · have hlt := c.sound.created lock hmem
    exact (hedits.is_eq c.base_sound EditRule.fromLockIds_leavesLocks.isLock
      (Nat.lt_of_lt_of_le hlt c.size_le)).trans ((c.base_is (by decide) hlt).trans his)
  · obtain ⟨parent, hparent, hplace⟩ :=
      Option.bind_eq_some_iff.1 ((p.owningTile?_eq lock).symm.trans hlockTile)
    rw [Program.owningTile?_eq, hkeep.operand parent hparent, Option.bind_some]
    exact c.canonical_place hbuffers hstructured hnone hplace

section

variable (hblock : block ∈ p.deviceBlocks) (hwalk : c.base.walkIn device = p.blockOps block)

include hblock hwalk

/-- A tile of a side of the FIFO that a name means is near it at the end. -/
theorem canonical_nearFifo {name : String} (hnear : ∀ fifo, p.fifoIn? block name = some fifo →
      ∃ side, p.sideTile? fifo side = some tile ∧ (side = .produce → p.IsShort fifo)) :
    c.base.NearFifo m (c.base.findIn device "aie.objectfifo") name tile := by
  intro fifo hfound
  have hfifo : p.fifoIn? block name = some fifo := by
    rw [← c.base_fifo? hblock hwalk name]
    exact hfound
  obtain ⟨side, htile, hshort⟩ := hnear fifo hfifo
  obtain ⟨value, consumer, hvalue, hplace, hdistance⟩ := Program.nearConsumer_of_side
    (fun value tile h =>
      c.canonical_place hbuffers hstructured hnone (Program.placeOf?_of_tileOf? h)) htile hshort
  obtain ⟨-, -, hheader⟩ :=
    c.base_found hblock hwalk (by decide) (List.mem_of_find?_eq_some hfound)
  exact ⟨value, consumer, (hheader.operandValue? 1).trans hvalue, hplace, hdistance⟩

/-- Cores of a source in which users are in place and locks nearby are served. -/
theorem base_served (hplaced : p.UsersInPlace) (hlocks : p.LocksNearby) :
    m.CoresServed (c.base.NearFifo m (c.base.findIn device "aie.objectfifo")) device c.base := by
  intro core hcore
  obtain ⟨hnamed, hmem, hheader⟩ := c.base_found hblock hwalk (by decide) hcore
  have hall : core ∈ p.findAll "aie.core" :=
    List.mem_filter.2 ⟨hmem, (List.mem_filter.1 hnamed).2⟩
  obtain ⟨tile, hseat⟩ := Option.isSome_iff_exists.1 (hplaced.placed core hall)
  refine ⟨tile, c.canonical_seat hbuffers hstructured hnone hheader hseat, fun id hid => ?_⟩
  rw [c.base_walkIn hmem] at hid
  have hlt := c.sound.lt_size_of_walkIn hid
  refine ⟨fun huse => ?_, fun name haccess hname => ?_⟩
  · have huse' : id ∈ p.findIn core "aie.use_lock" :=
      List.mem_filter.2 ⟨hid, (c.base_is (by decide) hlt).symm.trans huse⟩
    rw [(c.base_sameHeader (by decide) hlt huse).operandValue?]
    exact c.canonical_reachesLock hbuffers hstructured hnone (hplaced.uses core hall id huse') hseat
      (hlocks.numbered core hall id huse')
  · have hid' : (p.op id).SameHeader (c.base.op id) := by
      have haffine : ∀ name ∈ servedNames,
          ∀ pair ∈ affineNames, pair.1 ≠ name ∧ pair.2 ≠ name := by decide
      exact c.base_sameHeader (haffine _ (Access.mem_servedNames haccess)) hlt BEq.rfl
    rw [hid'.operandSymbol?] at hname
    have haccess' : (Access.of? (p.op id)).isSome = true := by
      rw [hid'] at haccess
      exact haccess
    refine c.canonical_nearFifo hbuffers hstructured hnone hblock hwalk fun fifo hfifo => ?_
    have hwritten : p.writtenAccess? block id = some (fifo, (p.op id).accessSide) := by
      rw [Program.writtenAccess?, if_pos haccess', hname, Option.bind_some, hfifo]
      rfl
    exact ⟨_, (hplaced.written block hblock core hnamed id hid _ hwritten).symm.trans hseat,
      hlocks.written block hblock core hnamed id hid _ hwritten⟩

/-- Registered processes of such a source have a home near their FIFOs. -/
theorem base_ready {registration : OpId} (hplaced : p.UsersInPlace) (hlocks : p.LocksNearby)
    (hfound : registration ∈ c.base.findIn device "aie.objectfifo.register_process") :
    m.Ready (c.base.NearFifo m (c.base.findIn device "aie.objectfifo")) device c.base
      registration := by
  obtain ⟨hnamed, -, hheader⟩ := c.base_found hblock hwalk (by decide) hfound
  intro name side fifo value hname hside hfifo hvalue
  rw [hheader.operandSymbol?] at hname
  rw [Operation.operandText?, hheader.operands] at hside
  obtain ⟨-, -, hfifoHeader⟩ :=
    c.base_found hblock hwalk (by decide) (List.mem_of_find?_eq_some hfifo)
  rw [hfifoHeader.operandValue?] at hvalue
  rw [c.base_fifo? hblock hwalk] at hfifo
  have hregistered : p.registeredAccess? block registration = some (fifo, side) := by
    rw [Program.registeredAccess?, hname, Option.bind_some, hfifo, Option.bind_some,
      Operation.operandText?, hside]
    rfl
  obtain ⟨tile, hside', hmanned⟩ :=
    hplaced.registered block hblock registration hnamed _ hregistered
  obtain ⟨_, hvalue', htile⟩ := Option.bind_eq_some_iff.1 hside'
  cases Option.some.inj (hvalue.symm.trans hvalue')
  refine ⟨tile, c.canonical_place hbuffers hstructured hnone (Program.placeOf?_of_tileOf? htile),
    ?_, fun inner hinner hinnerValue core hcore haround => ?_⟩
  · refine c.canonical_nearFifo hbuffers hstructured hnone hblock hwalk fun other hother => ?_
    cases Option.some.inj (hother.symm.trans hfifo)
    exact ⟨side, hside', hlocks.registered block hblock registration hnamed _ hregistered⟩
  · obtain ⟨hinnerNamed, -, hinnerHeader⟩ := c.base_found hblock hwalk (by decide) hinner
    obtain ⟨hcoreNamed, hcoreMem, hcoreHeader⟩ := c.base_found hblock hwalk (by decide) hcore
    rw [c.base_walkIn hcoreMem] at haround
    have hsame : (p.op inner).operandValue? 0 = (p.op fifo).operandValue? side.tileIndex :=
      ((hinnerHeader.operandValue? 0).symm.trans hinnerValue).trans hvalue.symm
    exact c.canonical_seat hbuffers hstructured hnone hcoreHeader
      (hmanned inner hinnerNamed hsame core hcoreNamed haround)

end

end LoweringRun

/-- **Lock uses of canonical programs are resolved.** In a source in which cores are on tiles, use
locks nearby and access FIFOs on their own side, the locks of the FIFOs are within reach, too: of a
consumer wherever the producer is, and of a producer if the FIFO is short. Locks that cores use have
an identifier or are in a device, and neither a value nor a FIFO is defined in a tree that the
pipeline erases. -/
theorem canonicalizeSource_locksInReach {source : String} {m : Program}
    (hparse : Source.parse source = .ok p) (h : canonicalizeSource source = .ok m)
    (hplaced : p.UsersInPlace) (hlocks : p.LocksNearby) (hnone : p.DefinesNone discardedNames)
    (hhides : p.HidesNone discardedNames ["aie.objectfifo"]) :
    ∃ q, Stage.localizeLocks.run m = (.ok (), q) := by
  obtain ⟨q, r, ⟨c⟩, hbuffers, hstructured⟩ := canonicalizeSource_run hparse h
  have hedits := c.fromLockIds_edits hbuffers hstructured
  have hwell := (hedits.sound c.base_sound).toWellFormed
  refine (Stage.localizeLocks_iff hwell).2 fun device hdevice => ?_
  have hbase := (hedits.mem_devices EditRule.fromLockIds_sparesDevices c.base_sound).1 hdevice
  obtain ⟨block, hblock, hwalk⟩ := c.exists_block hbase
  exact c.locksInReach (c.base_hidesNone (by decide) hhides) hbase hbuffers hstructured
    ⟨.refl _ _, c.base_served hbuffers hstructured hnone hblock hwalk hplaced hlocks,
      fun _ => c.base_ready hbuffers hstructured hnone hblock hwalk hplaced hlocks⟩

/-- Two tiles next to each other, a core that uses a lock on the other tile and accesses a FIFO, and
a process on the side of the producer. -/
def neighboursSource : String :=
  "%a = aie.tile(0, 2)\n%b = aie.tile(0, 3)\n%l = aie.lock(%a)\n" ++
  "aie.core(%b) \x7b aie.use_lock(%l, acquire, 1) aie.objectfifo.acquire(@f, consume, 1) \x7d\n" ++
  "aie.objectfifo(%a, %b) \x7bsize = 16, sym_name = f\x7d\n" ++
  "aie.objectfifo.register_process(@f, produce, @work)"

/-- The cores of both tiles reach the locks, which are on the tile of the consumer. -/
theorem canonicalizeSource_locksInReach_neighbours : ∃ p m, Source.parse neighboursSource = .ok p ∧
    canonicalizeSource neighboursSource = .ok m ∧
    p.UsersInPlace ∧ p.LocksNearby ∧ p.DefinesNone discardedNames ∧
    p.HidesNone discardedNames ["aie.objectfifo"] ∧
    (m.findAll "aie.core").map (fun core => (m.findIn core "aie.use_lock").length) = [2, 2] ∧
    ∃ q, Stage.localizeLocks.run m = (.ok (), q) := by
  have hsource : ∃ p, Source.parse neighboursSource = .ok p ∧ p.UsersInPlace ∧ p.LocksNearby ∧
      p.DefinesNone discardedNames ∧ p.HidesNone discardedNames ["aie.objectfifo"] :=
    exists_ok_of_any (by decide +kernel)
  have hcores : ∃ m, canonicalizeSource neighboursSource = .ok m ∧
      (m.findAll "aie.core").map (fun core => (m.findIn core "aie.use_lock").length) = [2, 2] :=
    exists_ok_of_any (by decide +kernel)
  obtain ⟨p, hp, hplaced, hlocks, hnone, hhides⟩ := hsource
  obtain ⟨m, hm, hcores⟩ := hcores
  exact ⟨p, m, hp, hm, hplaced, hlocks, hnone, hhides, hcores,
    canonicalizeSource_locksInReach hp hm hplaced hlocks hnone hhides⟩

/-- A process of a producer two steps from its consumer. -/
def distantSource : String :=
  "%a = aie.tile(0, 2) %b = aie.tile(0, 4)\n" ++
  "aie.objectfifo(%a, %b) \x7bsize = 16, sym_name = f\x7d\n" ++
  "aie.objectfifo.register_process(@f, produce, @work)"

/-- A lock outside the only device. -/
def outsideSource : String :=
  "%t = aie.tile(0, 2) %l = aie.lock(%t)\n" ++
  "aie.device(ipu) \x7b aie.core(%t) \x7b aie.use_lock(%l, acquire, 1) \x7d \x7d"

/-- A FIFO inside another one. -/
def nestedFifoSource : String :=
  "%t = aie.tile(0, 2)\naie.objectfifo(%t, %t) \x7bsize = 16, sym_name = g\x7d \x7b\n" ++
  "aie.objectfifo(%t, %t) \x7bsize = 16, sym_name = f\x7d \x7d\n" ++
  "aie.core(%t) \x7b aie.objectfifo.acquire(@f, consume, 1) \x7d"

/-- A lock inside a terminator. -/
def terminatedLockSource : String :=
  "%t = aie.tile(0, 2)\naie.core(%t) \x7b\n" ++
  "scf.yield \x7b %l = aie.lock(%t, 0) \x7d aie.use_lock(%l, acquire, 1) \x7d"

/-- Whether users are in place in a source, and the lock uses of its canonical program are still not
resolved. -/
def Source.UsesRejected (source : String) : Prop :=
  ∃ p m, Source.parse source = .ok p ∧ p.UsersInPlace ∧ canonicalizeSource source = .ok m ∧
    ∀ q, Stage.localizeLocks.run m ≠ (.ok (), q)

/-- A source whose canonical program is refused has its uses rejected. -/
theorem Source.usesRejected_of_run {source : String}
    (hsource : ∃ p, Source.parse source = .ok p ∧ p.UsersInPlace)
    (hrun : ∃ m, canonicalizeSource source = .ok m ∧
      (Stage.localizeLocks.run m).1.toOption.isSome = false) : Source.UsesRejected source := by
  obtain ⟨p, hp, hplaced⟩ := hsource
  obtain ⟨m, hm, hfails⟩ := hrun
  refine ⟨p, m, hp, hplaced, hm, fun q hq => ?_⟩
  rw [hq] at hfails
  cases hfails

/-- Users in place are not enough: each of the further conditions fails in one of four sources, and
their lock uses are not resolved. -/
theorem canonicalizeSource_lockUses_rejected :
    Source.UsesRejected distantSource ∧ Source.UsesRejected outsideSource ∧
      Source.UsesRejected nestedFifoSource ∧ Source.UsesRejected terminatedLockSource := by
  refine ⟨?_, ?_, ?_, ?_⟩ <;>
    exact Source.usesRejected_of_run (exists_ok_of_any (by decide +kernel))
      (exists_ok_of_any (by decide +kernel))

end TileFlow
