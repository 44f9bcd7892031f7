import Mathlib.Tactic.MkIffOfInductiveProp
import TileFlow.Proofs.Fifo.Allocation
import TileFlow.Proofs.Memory.Transfer
import TileFlow.Proofs.Stage.Orderly
import TileFlow.Proofs.Stage.Idempotent

/-!
# Transfers over FIFOs

A FIFO between the array and the host becomes a stream with a record of its channel on the tile that
faces the host, and the transfers of the host over the FIFO look the channel up in this record.

## Main definitions

* `Program.HostFifo`: a FIFO of a source of which one tile faces the host.

## Main results

* `canonicalizeSource_hostStream`: the stream of the FIFO in the canonical program.
* `canonicalizeSource_transfers`: the stream of the FIFO and the transfers over it.
-/

namespace TileFlow

open TileFlow.Action

variable {p q m n r : Program} {device fifo first x : OpId} {name producer consumer : String}
  {a b : Tile} {allocation : ShimAllocation} {source destination : Nat}

/-- A FIFO right in a device, of which exactly one tile faces the host. No other FIFO of the device
has its name, and no allocation is for it. -/
@[mk_iff]
structure Program.HostFifo (p : Program) (device fifo : OpId) (name producer consumer : String)
    (a b : Tile) : Prop where
  inDevice : device ∈ p.devices
  inChildren : fifo ∈ p.children (some device)
  isFifo : (p.op fifo).is "aie.objectfifo" = true
  symName : (p.op fifo).textAttr? "sym_name" = some name
  producerValue : (p.op fifo).operandValue? 0 = some producer
  consumerValue : (p.op fifo).operandValue? 1 = some consumer
  producerTile : p.tileOf? producer = some a
  consumerTile : p.tileOf? consumer = some b
  oneHost : a.row = 0 ↔ b.row ≠ 0
  only : ∀ other ∈ p.findIn device "aie.objectfifo",
    (p.op other).textAttr? "sym_name" = some name → other = fifo
  free : ∀ id ∈ p.findIn device "aie.shim_dma_allocation", (p.op id).operandSymbol? 0 ≠ some name

instance : Decidable (p.HostFifo device fifo name producer consumer a b) :=
  decidable_of_iff _ (Program.hostFifo_iff p device fifo name producer consumer a b).symm

/-! ### The stream -/

namespace LoweringRun

variable (c : LoweringRun p q)

/-- A program with a device is not put into another one. -/
theorem base_eq (hdevice : device ∈ p.devices) : c.base = c.affine := by
  obtain ⟨haffine, -⟩ := c.base_ok
  have hdevices := (haffine.mem_devices EditRule.affine_sparesDevices c.sound).2 hdevice
  have hrun := c.base_run
  rw [wrapInDevice_idle (List.ne_nil_of_mem hdevices), Prod.mk.injEq] at hrun
  exact hrun.2.symm

/-- The stages before the FIFOs edit the program by their rules. -/
theorem beforeFifos_edits (hdevice : device ∈ p.devices) : p.Edits .beforeFifos c.processes := by
  have haffine := c.base_ok.1
  rw [← c.base_eq hdevice] at haffine
  exact ((haffine.any (by simp)).trans (c.lockIds_edits.any (by simp))).trans
    (c.processes_edits.any (by simp))

/-- A FIFO of which one tile faces the host becomes a stream with the record of its channel. -/
theorem fifos_hostStream (h : p.HostFifo device fifo name producer consumer a b) :
    ∃ (source destination : Nat) (first : OpId), p.slots.size ≤ first ∧
      c.fifos.HostStream device name producer consumer source destination
        (hostEnd a b source destination) first := by
  have hp := c.sound
  have hbefore := c.beforeFifos_edits h.inDevice
  have hspares : EditRule.beforeFifos.Spares "aie.objectfifo" :=
    EditRule.beforeFifos_spares (by decide)
  -- The stages before leave the FIFOs and the allocations as they are.
  have hplace := Program.outermost_of_mem_children hp.toWellFormed h.inDevice h.inChildren
  have hfifo := (Program.Stands.mk hplace (.refl _)).edits hspares
    EditRule.beforeFifos_sparesDevices hp h.inDevice h.isFifo hbefore
  have hdevice := (hbefore.mem_devices EditRule.beforeFifos_sparesDevices hp).2 h.inDevice
  have honly : ∀ other ∈ c.processes.findIn device "aie.objectfifo",
      (c.processes.op other).textAttr? "sym_name" = some name → other = fifo :=
    fun other hother hname => by
      have hold := hbefore.findIn_of_old (EditRule.beforeFifos_keeps_ne (by decide)) hp
        (Program.mem_walk_of_mem_devices hdevice) hother
      obtain ⟨hin, his⟩ := List.mem_filter.1 hold
      have hsame := hbefore.spared hspares hp (hp.lt_size_of_walkIn hin) his
      exact h.only other hold ((hsame.textAttr? _).symm.trans hname)
  have hfree : c.processes.AllotsOnly device name fun _ => False :=
    Program.AllotsOnly.edits_of_spares h.free (EditRule.beforeFifos_spares (by decide))
      (EditRule.beforeFifos_keeps_ne (by decide)) hp (Program.mem_walk_of_mem_devices hdevice)
      hbefore
  have hprocesses := c.processes_sound
  have hisFifo := (hfifo.header.is _).trans h.isFifo
  have hname := (hfifo.header.textAttr? _).trans h.symName
  obtain ⟨r, f, hothers, hlast⟩ :=
    lowerObjectFifos_run hprocesses hdevice hfifo.place hisFifo hname honly c.fifos_run
  -- The FIFO is read as the source has it.
  have hr := hothers.sound hprocesses
  have hsame := hfifo.header.trans (hothers.allotting_fifo hprocesses
    (hprocesses.lt_size_of_walkIn hfifo.place.below) hisFifo)
  have htile : ∀ v t, r.tileOf? v = some t → p.tileOf? v = some t := fun v t ht =>
    hbefore.tileOf?_of_old EditRule.beforeFifos_keepsValues hp c.values
      (fun _ _ _ hop => EditRule.beforeFifos_creates hop)
      (hothers.tileOf?_of_old EditRule.allotting_keepsValues hprocesses c.processes_values
        (fun _ _ _ hop => Operation.not_is_of_mem hop.1 (by decide)) ht)
  have hread := f.read
  obtain rfl : f.shape.name = name :=
    Option.some.inj (hread.name.symm.trans ((hsame.textAttr? _).trans h.symName))
  obtain rfl : f.shape.producer = producer :=
    Option.some.inj (hread.producerValue.symm.trans ((hsame.operandValue? 0).trans h.producerValue))
  obtain rfl : f.shape.consumer = consumer :=
    Option.some.inj (hread.consumerValue.symm.trans ((hsame.operandValue? 1).trans h.consumerValue))
  obtain rfl : f.shape.producerTile = a :=
    Option.some.inj ((htile _ _ hread.producer).symm.trans h.producerTile)
  obtain rfl : f.shape.consumerTile = b :=
    Option.some.inj ((htile _ _ hread.consumer).symm.trans h.consumerTile)
  -- The FIFOs before and after it record nothing for its name.
  have hspares' := @EditRule.allotting_sparesDevices
  have hdevicer := (hothers.mem_devices hspares' hprocesses).2 hdevice
  have hnot : ¬ ¬ (device = device ∧ f.shape.name = f.shape.name) := fun hN => hN ⟨rfl, rfl⟩
  have hplacer := hfifo.place.allotting hprocesses hdevice hisFifo hname hnot hothers
  obtain ⟨source, destination, first, hfirst, hstream⟩ := f.hostStream hr hdevicer hplacer
    ((hsame.is _).trans h.isFifo) (hfree.edits hnot hprocesses hdevice hothers) h.oneHost
  have hown : r.Edits (.allotting fun _ _ => True) (f.accessed.erase fifo) :=
    f.allots ⟨hr, hdevicer, hr.lt_size_of_walkIn hplacer.below, fun _ => hplacer.below⟩
      ((hsame.is _).trans h.isFifo) trivial
  have hs := hown.sound hr
  have hdevices := (hown.mem_devices hspares' hr).2 hdevicer
  refine ⟨source, destination, first, ?_, hstream.edits
    (fun kind hkind => EditRule.allotting_spares (hostStreamNames_ne kind hkind))
      hspares' hs hdevices
    hlast (hstream.only.edits hnot hs hdevices hlast)⟩
  exact Nat.le_trans (Nat.le_trans (hbefore.size_le hp) (hothers.size_le hprocesses)) hfirst

end LoweringRun

/-- The stream is in the canonical program. -/
theorem canonicalizeSource_hostStream {text : String} (hparse : Source.parse text = .ok p)
    (h : canonicalizeSource text = .ok m)
    (hfifo : p.HostFifo device fifo name producer consumer a b) :
    device ∈ m.devices ∧ ∃ (source destination : Nat) (first : OpId), p.slots.size ≤ first ∧
      m.HostStream device name producer consumer source destination
        (hostEnd a b source destination) first := by
  obtain ⟨q, r, ⟨c⟩, hbuffers, hstructured⟩ := canonicalizeSource_run hparse h
  obtain ⟨source, destination, first, hfirst, hstream⟩ := c.fifos_hostStream hfifo
  have hafter := c.afterFifos_edits hbuffers hstructured
  have hspares := EditRule.afterFifos_sparesDevices
  have hbefore := c.beforeFifos_edits hfifo.inDevice
  have hdevicep := (hbefore.mem_devices EditRule.beforeFifos_sparesDevices c.sound).2 hfifo.inDevice
  have hdevicef :=
    (c.fifos_edits.mem_devices EditRule.fifos_sparesDevices c.processes_sound).2 hdevicep
  have hdevice := (hafter.mem_devices hspares c.fifos_sound).2 hdevicef
  have hnames : ∀ kind ∈ hostStreamNames, kind ∉ ["aiex.broadcast_packet", "aie.packet_flow",
      "aiex.multicast", "aie.buffer", "scf.for", "scf.if", "scf.yield"] := by decide
  refine ⟨hdevice, source, destination, first, hfirst, hstream.edits
    (fun kind hkind => EditRule.afterFifos_spares (hnames kind hkind)) hspares
      c.fifos_sound hdevicef
    hafter ?_⟩
  exact hstream.only.edits_of_spares (EditRule.afterFifos_spares (by decide))
    (EditRule.afterFifos_keeps_ne (by decide)) c.fifos_sound
    (Program.mem_walk_of_mem_devices hdevice) hafter

/-! ### Transfers -/

/-- Transfers that are replaced leave the stream where it is. -/
theorem Program.HostStream.transfers (hp : p.Sound) (hdevice : device ∈ p.devices)
    (h : p.HostStream device name producer consumer source destination allocation first)
    (hedits : p.Edits .transfers q) :
    q.shimAllocation? device name = some allocation := by
  have hspares := EditRule.transfers_sparesDevices
  have hnames : ∀ kind ∈ hostStreamNames, transferName ≠ kind := by decide
  have hdeviceq := (hedits.mem_devices hspares hp).2 hdevice
  refine Program.HostStream.shimAllocation?_eq (hedits.sound hp) hdeviceq (h.edits
    (fun kind hkind => EditRule.transfers_spares (hnames kind hkind)) hspares hp hdevice hedits ?_)
  exact h.only.edits_of_spares (EditRule.transfers_spares (by decide))
    (EditRule.transfers_names.keeps_ne (by decide)) hp (Program.mem_walk_of_mem_devices hdeviceq)
    hedits

/-- **Transfers drive the stream of their FIFO.** Take a FIFO right in a device of a source, of
which exactly one tile faces the host, and whose name no other FIFO and no allocation of the device
has. In the canonical program, it is a stream, created after its second lock, and the end of this
stream on the tile that faces the host is recorded in the only allocation for the name in the
device. When transfers are replaced, each one over the FIFO that is below no other one becomes the
instructions for this end: the write of a descriptor in its column, the patch of its address, and
the write of its number to the queue of its channel. -/
theorem canonicalizeSource_transfers {text : String} (hparse : Source.parse text = .ok p)
    (h : canonicalizeSource text = .ok m)
    (hfifo : p.HostFifo device fifo name producer consumer a b) :
    ∃ (source destination : Nat) (first : OpId), p.slots.size ≤ first ∧
      m.HostStream device name producer consumer source destination
        (hostEnd a b source destination) first ∧
      (m.findIn device "aie.shim_dma_allocation").filter
        (fun id => (m.op id).operandSymbol? 0 == some name) = [first + 2] ∧
      m.shimAllocation? device name = some (hostEnd a b source destination) ∧
      ∀ n, Pipeline.ipu.run m = (.ok (), n) → ∃ start : OpId → OpId,
        n.below device = (m.below device).expand
          (instructionsAt start (m.findIn device "aiex.ipu.dma_memcpy_nd")) ∧
        ∀ x ∈ m.findIn device "aiex.ipu.dma_memcpy_nd",
          (m.op x).operandSymbol? 0 = some name →
          (∀ other ∈ m.findIn device "aiex.ipu.dma_memcpy_nd", x ∉ m.walkIn other) →
          ∃ shape : TransferShape, shape.ReadFrom m device x ∧
            shape.allocation = hostEnd a b source destination ∧
            n.Instructs device (start x) shape := by
  obtain ⟨hdevice, source, destination, first, hfirst, hstream⟩ :=
    canonicalizeSource_hostStream hparse h hfifo
  have hm := (canonicalizeSource_orderly h).tree
  refine ⟨source, destination, first, hfirst, hstream, hstream.allocations hm.sound hdevice,
    hstream.shimAllocation?_eq hm.sound hdevice, fun n hn => ?_⟩
  obtain ⟨hntree, hedits, start, hbelow, hlowers⟩ := Pipeline.ipu_device hm hdevice hn
  have hdevicen := Program.mem_walk_of_mem_devices
    ((hedits.mem_devices EditRule.transfers_sparesDevices hm.sound).2 hdevice)
  refine ⟨start, hbelow, fun x hx hsymbol hout => ?_⟩
  exact (hlowers x hx).instructs hm.sound hx hsymbol
    (fun r hr => hstream.transfers hm.sound hdevice hr) hdevicen
    fun i hi => hm.mem_walkIn_instructions hdevice hbelow hx hout hi

/-- A FIFO from the host to a core, and a transfer over it. -/
def hostFifoSource : String :=
  "aie.device(ipu) \x7b\n%a = aie.tile(0, 0)\n%b = aie.tile(0, 2)\n" ++
  "aie.objectfifo(%a, %b) \x7bsize = 16, sym_name = f\x7d\n" ++
  "aiex.ipu.dma_memcpy_nd(@f) \x7bid = 3, length = 64\x7d\n\x7d"

/-- The transfer is put into the queue of the first channel to the array, in the first column. -/
theorem canonicalizeSource_transfers_host : ∃ p m n, Source.parse hostFifoSource = .ok p ∧
    canonicalizeSource hostFifoSource = .ok m ∧ p.HostFifo 0 3 "f" "a" "b" ⟨0, 0⟩ ⟨0, 2⟩ ∧
    Pipeline.ipu.run m = (.ok (), n) ∧ ∃ (source destination : Nat) (first start : OpId),
      m.HostStream 0 "f" "a" "b" source destination ⟨"MM2S", source, 0⟩ first ∧
      ∃ shape : TransferShape, shape.ReadFrom m 0 4 ∧ shape.allocation = ⟨"MM2S", source, 0⟩ ∧
        n.Instructs 0 start shape := by
  have hparsed : ∃ p, Source.parse hostFifoSource = .ok p ∧
      p.HostFifo 0 3 "f" "a" "b" ⟨0, 0⟩ ⟨0, 2⟩ := exists_ok_of_any (by decide +kernel)
  have hcanonical : ∃ m, canonicalizeSource hostFifoSource = .ok m ∧
      m.findIn 0 "aiex.ipu.dma_memcpy_nd" = [4] ∧ (m.op 4).operandSymbol? 0 = some "f" ∧
      4 ∉ m.walkIn 4 ∧ (Pipeline.ipu.run m).1.toOption = some () :=
    exists_ok_of_any (by decide +kernel)
  obtain ⟨p, hp, hfifo⟩ := hparsed
  obtain ⟨m, hm, hfind, hsymbol, hout, hrun⟩ := hcanonical
  have hn := Pipeline.run_eq_ok hrun
  obtain ⟨source, destination, first, -, hstream, -, -, htransfers⟩ :=
    canonicalizeSource_transfers hp hm hfifo
  obtain ⟨start, -, hdrives⟩ := htransfers _ hn
  have hmem : 4 ∈ m.findIn 0 "aiex.ipu.dma_memcpy_nd" := by
    rw [hfind]
    exact List.mem_cons_self
  obtain ⟨shape, hread, hallocation, hops⟩ := hdrives 4 hmem hsymbol (fun other hother => by
    rw [hfind, List.mem_singleton] at hother
    exact hother ▸ hout)
  exact ⟨p, m, _, hp, hm, hfifo, hn, source, destination, first, start 4, hstream, shape, hread,
    hallocation, hops⟩

/-- Two devices with such a FIFO each. -/
def twoHostsSource : String :=
  "aie.device(ipu) \x7b\n  %a = aie.tile(0, 0)\n  %b = aie.tile(0, 2)\n" ++
  "  aie.objectfifo(%a, %b) \x7bsize = 16, sym_name = f\x7d\n\x7d\n" ++
  "aie.device(ipu) \x7b\n  %c = aie.tile(0, 0)\n  %d = aie.tile(0, 2)\n" ++
  "  aie.objectfifo(%c, %d) \x7bsize = 16, sym_name = f\x7d\n\x7d\n"

/-- A device with such a FIFO that is not at the top. -/
def innerHostSource : String :=
  "aie.device(ipu) \x7b\n\x7d\naiex.part \x7b\n  aie.device(ipu) \x7b\n" ++
  "    %a = aie.tile(0, 0)\n    %b = aie.tile(0, 2)\n" ++
  "    aie.objectfifo(%a, %b) \x7bsize = 16, sym_name = f\x7d\n  \x7d\n\x7d\n"

/-- The program has an allocation for each of two devices with such a FIFO, and none for a device
that is not at the top. -/
theorem canonicalizeSource_allocations_elsewhere :
    (∃ p m, Source.parse twoHostsSource = .ok p ∧ canonicalizeSource twoHostsSource = .ok m ∧
      p.HostFifo 0 3 "f" "a" "b" ⟨0, 0⟩ ⟨0, 2⟩ ∧
      ((m.findAll "aie.shim_dma_allocation").filter fun id =>
        (m.op id).operandSymbol? 0 == some "f").length = 2) ∧
    ∃ p m, Source.parse innerHostSource = .ok p ∧ canonicalizeSource innerHostSource = .ok m ∧
      ((p.op 2).is "aie.device" = true ∧ p.walkIn 2 = [3, 4, 5] ∧ 5 ∈ p.children (some 2) ∧
        (p.op 5).is "aie.objectfifo" = true ∧ (p.op 5).textAttr? "sym_name" = some "f" ∧
        (p.op 5).operands = [.value "a", .value "b"] ∧ p.tileOf? "a" = some ⟨0, 0⟩ ∧
        p.tileOf? "b" = some ⟨0, 2⟩) ∧
      m.findAll "aie.shim_dma_allocation" = [] := by
  have htwo : ∃ p, Source.parse twoHostsSource = .ok p ∧
      p.HostFifo 0 3 "f" "a" "b" ⟨0, 0⟩ ⟨0, 2⟩ := exists_ok_of_any (by decide +kernel)
  have hboth : ∃ m, canonicalizeSource twoHostsSource = .ok m ∧
      ((m.findAll "aie.shim_dma_allocation").filter fun id =>
        (m.op id).operandSymbol? 0 == some "f").length = 2 := exists_ok_of_any (by decide +kernel)
  have hinner : ∃ p, Source.parse innerHostSource = .ok p ∧ ((p.op 2).is "aie.device" = true ∧
      p.walkIn 2 = [3, 4, 5] ∧ 5 ∈ p.children (some 2) ∧ (p.op 5).is "aie.objectfifo" = true ∧
      (p.op 5).textAttr? "sym_name" = some "f" ∧ (p.op 5).operands = [.value "a", .value "b"] ∧
      p.tileOf? "a" = some ⟨0, 0⟩ ∧ p.tileOf? "b" = some ⟨0, 2⟩) :=
    exists_ok_of_any (by decide +kernel)
  have hnone : ∃ m, canonicalizeSource innerHostSource = .ok m ∧
      m.findAll "aie.shim_dma_allocation" = [] := exists_ok_of_any (by decide +kernel)
  obtain ⟨p, hp, hfifo⟩ := htwo
  obtain ⟨m, hm, hcount⟩ := hboth
  obtain ⟨p', hp', hfifo'⟩ := hinner
  obtain ⟨m', hm', hnone⟩ := hnone
  exact ⟨⟨p, m, hp, hm, hfifo, hcount⟩, p', m', hp', hm', hfifo', hnone⟩

end TileFlow
