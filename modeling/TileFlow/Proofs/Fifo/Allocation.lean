import TileFlow.Memory.Transfer
import TileFlow.Proofs.Fifo.Channel
import TileFlow.Proofs.Stage.Kept

/-!
# Allocations of FIFOs

A FIFO right in a device becomes a stream, and if one of its tiles faces the host, the channel of
the stream there is recorded in an allocation. The other FIFOs record their channels under their own
names, and those of other devices in these, so that the record of a FIFO is the only one of its name
in the device.

## Main definitions

* `EditRule.allotting`: the edits of FIFOs of some devices with some names.
* `Program.AllotsOnly`: the allocations of a device for a name.
* `Program.HostStream`: a stream and the record of its channel.

## Main results

* `lowerObjectFifos_run`: one FIFO, and the others before and after it.
* `FifoRun.hostStream`: what the FIFO becomes.
* `Program.HostStream.edits`: the stream stays.
-/

namespace TileFlow

open TileFlow.Action

variable {rule : EditRule} {p q r : Program} {device fifo id : OpId} {name : String}
  {N : OpId → String → Prop} {P : OpId → Prop}

/-! ### FIFOs of some devices -/

/-- The name of the operations that record channels. -/
def allocationName : String := "aie.shim_dma_allocation"

/-- FIFOs of some devices with some names are erased, their parts are created, allocations for these
names in these devices, and accesses become uses of locks. -/
def EditRule.allotting (N : OpId → String → Prop) : EditRule where
  creates p parent op := op.name ∈ fifoPartNames ∧ (op.is allocationName = true →
    ∃ owner name, N owner name ∧ op.operandSymbol? 0 = some name ∧ owner ∈ p.devices ∧
      p.Within owner parent)
  changes p id op := ∃ name locks, op = lowerAccess name locks (p.op id)
  erases p id := (p.op id).is "aie.objectfifo" = true ∧
    ∃ owner name, N owner name ∧ (p.op id).textAttr? "sym_name" = some name ∧ owner ∈ p.devices ∧
      (id ∈ p.walk → id ∈ p.walkIn owner)

namespace EditRule

/-- Allotting channels leaves devices alone. -/
theorem allotting_sparesDevices : (EditRule.allotting N).SparesDevices where
  creates _ _ _ hop := Operation.not_is_of_mem hop.1 (by decide)
  changes := fifos_sparesDevices.changes
  erases _ _ hop := Operation.not_is_of_is hop.1 (by decide)

/-- Allotting channels keeps values. -/
theorem allotting_keepsValues : (EditRule.allotting N).KeepsValues discardedNames where
  place := fifos_keepsValues.place
  gives := fifos_keepsValues.gives
  erases p id hop := fifos_keepsValues.erases p id hop.1

/-- Allotting channels erases nothing but FIFOs and their accesses. -/
theorem allotting_spares {name : String}
    (hname : name ∉ ["aie.objectfifo", "aie.objectfifo.acquire", "aie.objectfifo.release"]) :
    (EditRule.allotting N).Spares name where
  changes p id op hop his := by
    obtain ⟨fifo, locks, rfl⟩ := hop
    refine lowerAccess_eq_self fifo locks ?_
    rw [beq_iff_eq.1 his]
    exact fun hmem => hname (List.mem_cons_of_mem _ hmem)
  erases p id hop := Operation.not_is_of_is hop.1 (by rintro rfl; exact hname (by simp))

/-- Allotting channels creates the parts of FIFOs and uses of locks. -/
theorem allotting_names : (EditRule.allotting N).Names ("aie.use_lock" :: fifoPartNames) where
  creates _ _ _ hop := List.mem_cons_of_mem _ hop.1
  changes := fifos_names.changes

/-- Parts of a FIFO other than allocations may be created freely. -/
theorem allotting_creates_of_is {parent : Option OpId} {op : Operation} {other : String}
    (hop : op.is other = true) (hmem : other ∈ fifoPartNames) (hother : other ≠ allocationName) :
    (EditRule.allotting N).creates p parent op :=
  ⟨beq_iff_eq.1 hop ▸ hmem, fun his => absurd (Operation.is_inj hop his) hother⟩

end EditRule

namespace Program

/-- More FIFOs may be allotted channels than are. -/
theorem Edits.allotting_mono {N' : OpId → String → Prop} (h : p.Edits (.allotting N) q)
    (hN : ∀ owner name, N owner name → N' owner name) : p.Edits (.allotting N') q :=
  h.mono
    (fun _ _ _ hop => ⟨hop.1, fun his => by
      obtain ⟨owner, name, hname, hrest⟩ := hop.2 his
      exact ⟨owner, name, hN owner name hname, hrest⟩⟩)
    (fun _ _ _ hop => hop)
    fun _ _ hop => by
      obtain ⟨hfifo, owner, name, hname, hrest⟩ := hop
      exact ⟨hfifo, owner, name, hN owner name hname, hrest⟩

/-- A FIFO that is not erased stays the same. -/
theorem Edits.allotting_fifo (hp : p.Sound) (h : p.Edits (.allotting N) q)
    (hlt : fifo < p.slots.size) (his : (p.op fifo).is "aie.objectfifo" = true) :
    (p.op fifo).SameHeader (q.op fifo) :=
  h.sameHeader_of hp hlt fun r op hop hr => by
    obtain ⟨name, locks, rfl⟩ := hop
    rw [lowerAccess_eq_self]
    · exact hr
    · rw [hr.name, beq_iff_eq.1 his]
      decide

/-- A FIFO right in a device stays there while others, or those of other devices, are replaced. -/
theorem Outermost.allotting (h : p.Outermost device fifo) (hp : p.Sound)
    (hdevice : device ∈ p.devices) (his : (p.op fifo).is "aie.objectfifo" = true)
    (hname : (p.op fifo).textAttr? "sym_name" = some name) (hN : ¬ N device name)
    (hedits : p.Edits (.allotting N) q) : q.Outermost device fifo := by
  refine hedits.outermost EditRule.allotting_sparesDevices hp hdevice h ?_
  rintro r x hr hout ⟨-, owner, other, hother, hx, howner, hbelow⟩ rfl
  have hlt := hp.lt_size_of_walkIn h.below
  have hrsound := Edits.sound hr hp
  have hdevicer := (Edits.mem_devices EditRule.allotting_sparesDevices hp hr).2 hdevice
  rw [(Edits.allotting_fifo hp hr hlt his).textAttr?, hname, Option.some.injEq] at hx
  have hin := hbelow (hrsound.mem_walk_of_walkIn (mem_walk_of_mem_devices hdevicer) hout.below)
  obtain rfl := device_eq_of_within hrsound.toWellFormed (mem_devices.1 hdevicer).1
    (mem_devices.1 howner).1 (.inr hout.below) (.inr hin)
  exact hN (hx ▸ hother)

end Program

/-! ### One FIFO -/

/-- A FIFO of a device, which may be in a tree set aside. -/
structure Program.FifoPlace (p : Program) (device fifo : OpId) : Prop where
  sound : p.Sound
  inDevice : device ∈ p.devices
  created : fifo < p.slots.size
  below : fifo ∈ p.walk → fifo ∈ p.walkIn device

/-- A FIFO stays below its device while devices are left alone. -/
theorem Program.FifoPlace.edits (h : p.FifoPlace device fifo) (hrule : rule.SparesDevices)
    (hedits : p.Edits rule q) : q.FifoPlace device fifo := by
  have hev := hedits.evolves h.sound
  have hdevice := (hedits.mem_devices hrule h.sound).2 h.inDevice
  refine ⟨hev.sound, hdevice, Nat.lt_of_lt_of_le h.created hev.size, fun hmem => ?_⟩
  exact (hev.walkIn device (mem_walk_of_mem_devices hdevice) fifo hmem h.created).2
    ⟨h.sound.created device (mem_walk_of_mem_devices h.inDevice),
      h.below (hev.walk fifo hmem h.created)⟩

/-- The record of a channel for a name. -/
def allocationPart (name : String) (a : ShimAllocation) : Operation where
  name := allocationName
  operands := [.symbol name, .ident a.direction, .int a.channel, .int a.column]

/-- The stream from a channel of one tile to a channel of another. -/
def streamPart (producer consumer : String) (source destination : Nat) : Operation where
  name := "aie.flow"
  operands := [.value producer, .ident "DMA", .int source, .value consumer, .ident "DMA",
    .int destination]

/-- A channel is recorded on a tile that faces the host. -/
theorem insertAllocation_ok {direction : String} {tile : Tile} {channel : Nat}
    (h : runOn (insertAllocation device fifo name direction tile channel) p = (.ok (), q)) :
    (tile.row = 0 ∧
      q = (p.insertBefore fifo (allocationPart name ⟨direction, channel, tile.column⟩)).2) ∨
      (tile.row ≠ 0 ∧ q = p) := by
  rw [insertAllocation, get_bind_ok] at h
  split at h
  · rename_i hrow
    obtain ⟨_, r, hinsert, h⟩ := bind_ok.1 h
    obtain ⟨-, rfl⟩ := pure_ok.1 h
    rw [runOn_insertBefore, Prod.mk.injEq] at hinsert
    exact .inl ⟨beq_iff_eq.1 hrow, hinsert.2.symm⟩
  · rename_i hrow
    obtain ⟨-, rfl⟩ := pure_ok.1 h
    exact .inr ⟨fun heq => hrow (beq_iff_eq.2 heq), rfl⟩

/-- An allocation before a FIFO allots a channel to it. -/
theorem Program.FifoPlace.insertAllocation {a : ShimAllocation} (h : p.FifoPlace device fifo)
    (hN : N device name) :
    p.Edits (.allotting N) (p.insertBefore fifo (allocationPart name a)).2 := by
  obtain ⟨parent, i, heq, hwithin, -⟩ := insertBefore_within h.sound (mem_devices.1 h.inDevice).1
    h.below (allocationPart name a)
  rw [heq]
  exact .single (.create parent i _ ⟨by simp [fifoPartNames, allocationPart, allocationName],
    fun _ => ⟨device, name, hN, rfl, h.inDevice, hwithin⟩⟩ (fresh_of_none rfl))

/-- A run of `insertAllocation` allots a channel to its FIFO only. -/
theorem insertAllocation_allots {direction : String} {tile : Tile} {channel : Nat}
    (hplace : p.FifoPlace device fifo) (hN : N device name)
    (h : runOn (insertAllocation device fifo name direction tile channel) p = (.ok (), q)) :
    p.Edits (.allotting N) q := by
  rcases insertAllocation_ok h with ⟨-, rfl⟩ | ⟨-, rfl⟩
  · exact hplace.insertAllocation hN
  · exact .refl

/-- The stream of a FIFO is created between channels after those in use, and its ends are
recorded. -/
theorem insertStream_ok {shape : FifoShape}
    (h : runOn (insertStream device fifo shape) p = (.ok (), q)) :
    (shape.producerTile = shape.consumerTile ∧ q = p) ∨
      ∃ (source destination : Nat) (r : Program), shape.producerTile ≠ shape.consumerTile ∧
        source = p.dmaChannelsInUse device shape.producerTile .source ∧
        destination = p.dmaChannelsInUse device shape.consumerTile .destination ∧
        runOn (insertAllocation device fifo shape.name "MM2S" shape.producerTile source)
          (p.insertBefore fifo
            (streamPart shape.producer shape.consumer source destination)).2 = (.ok (), r) ∧
        runOn (insertAllocation device fifo shape.name "S2MM" shape.consumerTile destination) r =
          (.ok (), q) := by
  rw [insertStream] at h
  split at h
  · rename_i hne
    rw [get_bind_ok] at h
    dsimp only at h
    obtain ⟨_, r, hinsert, h⟩ := bind_ok.1 h
    obtain ⟨_, s, hsource, hdestination⟩ := bind_ok.1 h
    rw [runOn_insertBefore, Prod.mk.injEq] at hinsert
    obtain ⟨-, rfl⟩ := hinsert
    exact .inr ⟨_, _, s, hne, rfl, rfl, hsource, hdestination⟩
  · rename_i heq
    obtain ⟨-, rfl⟩ := pure_ok.1 h
    exact .inl ⟨Classical.not_not.1 heq, rfl⟩

/-- The flow of a FIFO is no allocation. -/
theorem insertBefore_stream_allots (p : Program) (fifo : OpId) (producer consumer : String)
    (source destination : Nat) : p.Edits (.allotting N)
      (p.insertBefore fifo (streamPart producer consumer source destination)).2 := by
  obtain ⟨parent, i, heq⟩ :=
    p.insertBefore_eq fifo (streamPart producer consumer source destination)
  have hflow : (streamPart producer consumer source destination).is "aie.flow" = true := rfl
  rw [heq]
  exact .single (.create parent i _
    (EditRule.allotting_creates_of_is hflow (by decide) (by decide)) (Program.fresh_of_none rfl))

namespace FifoRun

/-- The locks and buffers of a FIFO are created. -/
theorem produced_allots (f : FifoRun device fifo p) (hp : p.Sound) :
    p.Edits (.allotting N) f.produced :=
  have hslots : p.Edits (.allotting N) f.buffered :=
    forM_edits hp f.slots fun _ _ _ _ _ _ => insertSlot_creates fun _ _ hop =>
      EditRule.allotting_creates_of_is hop (by decide) (by decide)
  hslots.trans (insertLock_creates
    (fun _ _ hop => EditRule.allotting_creates_of_is hop (by decide) (by decide)) f.producer)

/-- What a FIFO creates between its producer and its consumer allots no channel to another. -/
theorem consumed_allots (f : FifoRun device fifo p) : f.produced.Edits (.allotting N) f.consumed :=
  insertLock_creates
    (fun _ _ hop => EditRule.allotting_creates_of_is hop (by decide) (by decide)) f.consumer

/-- A FIFO records channels for its own name, in its device. -/
theorem allots (f : FifoRun device fifo p) (hplace : p.FifoPlace device fifo)
    (his : (p.op fifo).is "aie.objectfifo" = true) (hN : N device f.shape.name) :
    p.Edits (.allotting N) (f.accessed.erase fifo) := by
  have hspares := EditRule.allotting_sparesDevices (N := N)
  have hconsumed : p.Edits (.allotting N) f.consumed :=
    (f.produced_allots hplace.sound).trans f.consumed_allots
  have hstream : f.consumed.Edits (.allotting N) f.streamed := by
    rcases insertStream_ok f.stream with
      ⟨-, heq⟩ | ⟨source, destination, r, -, -, -, hsource, hdestination⟩
    · exact heq ▸ .refl
    · have hflow := insertBefore_stream_allots (N := N) f.consumed fifo f.shape.producer
        f.shape.consumer source destination
      have hplace' := (hplace.edits hspares hconsumed).edits hspares hflow
      have hfirst := insertAllocation_allots hplace' hN hsource
      exact (hflow.trans hfirst).trans
        (insertAllocation_allots (hplace'.edits hspares hfirst) hN hdestination)
  have hstreamed := hconsumed.trans hstream
  have haccessed := hstreamed.trans (lowerAccesses_changes (hplace.edits hspares hstreamed).sound
    (fun _ _ => ⟨_, _, rfl⟩) f.accesses)
  have hplace' := hplace.edits hspares haccessed
  have hsame := haccessed.allotting_fifo hplace.sound hplace.created his
  exact haccessed.trans (.single (.erase fifo hplace'.created ⟨(hsame.is _).trans his, device,
    f.shape.name, hN, (hsame.textAttr? _).trans f.read.name, hplace'.inDevice, hplace'.below⟩))

end FifoRun

/-- FIFOs of a device record channels for their names there, whatever FIFOs have been replaced
before. -/
theorem lowerFifos_allots {l : List OpId} (hp : p.Sound) (hdevice : device ∈ p.devices)
    (hl : ∀ x ∈ l, x ∈ p.findIn device "aie.objectfifo" ∧
      ∀ name, (p.op x).textAttr? "sym_name" = some name → N device name)
    (hr : p.Edits (.allotting fun _ _ => True) r)
    (h : runOn (l.forM (lowerObjectFifo device)) r = (.ok (), q)) : r.Edits (.allotting N) q :=
  forM_edits (hr.sound hp) h fun x hx s t _ hrs hrun => by
    obtain ⟨hfind, hname⟩ := hl x hx
    obtain ⟨hin, his⟩ := List.mem_filter.1 hfind
    have hps := hr.trans (hrs.allotting_mono fun _ _ _ => trivial)
    have hplace : p.FifoPlace device x := ⟨hp, hdevice, hp.lt_size_of_walkIn hin, fun _ => hin⟩
    have hsame := hps.allotting_fifo hp hplace.created his
    obtain ⟨f, rfl⟩ := lowerObjectFifo_run hrun
    refine f.allots (hplace.edits EditRule.allotting_sparesDevices hps) ((hsame.is _).trans his) ?_
    exact hname _ ((hsame.textAttr? _).symm.trans f.read.name)

/-- The stage replaces the FIFOs of other devices and those with other names, then one FIFO, and
then further ones of other devices or with other names. -/
theorem lowerObjectFifos_run (hp : p.Sound) (hdevice : device ∈ p.devices)
    (hfifo : p.Outermost device fifo) (his : (p.op fifo).is "aie.objectfifo" = true)
    (hname : (p.op fifo).textAttr? "sym_name" = some name)
    (hunique : ∀ x ∈ p.findIn device "aie.objectfifo",
      (p.op x).textAttr? "sym_name" = some name → x = fifo)
    (h : runOn Stage.lowerObjectFifos.action p = (.ok (), q)) :
    ∃ (r : Program) (f : FifoRun device fifo r),
      p.Edits (.allotting fun owner other => ¬ (owner = device ∧ other = name)) r ∧
      (f.accessed.erase fifo).Edits (.allotting fun owner other =>
        ¬ (owner = device ∧ other = name)) q := by
  have hspares := @EditRule.allotting_sparesDevices
  let others : OpId → String → Prop := fun owner other => ¬ (owner = device ∧ other = name)
  -- Other devices leave out the one of the FIFO.
  have hdevices : ∀ (l : List OpId) (s t : Program), (∀ d ∈ l, d ∈ p.devices ∧ d ≠ device) →
      p.Edits (.allotting fun _ _ => True) s → runOn (l.forM lowerObjectFifos) s = (.ok (), t) →
      s.Edits (.allotting others) t := fun l s t hl hps hrun =>
    forM_edits (hps.sound hp) hrun fun d hd u v hu hsu hround => by
      obtain ⟨hd, hne⟩ := hl d hd
      have hpu := hps.trans (hsu.allotting_mono fun _ _ _ => trivial)
      rw [lowerObjectFifos, get_bind_ok] at hround
      exact lowerFifos_allots hu ((hpu.mem_devices hspares hp).2 hd)
        (fun x hx => ⟨hx, fun _ _ heq => hne heq.1⟩) .refl hround
  change runOn (Stage.onEachDevice lowerObjectFifos) p = (.ok (), q) at h
  rw [Stage.onEachDevice, get_bind_ok] at h
  obtain ⟨d₁, d₂, a, b, hd, hbefore, hown, hafter⟩ :=
    forM_split (List.Pairwise.filter _ hp.toWellFormed.distinct.nodup_roots) hdevice h
  have hpa := hdevices d₁ p a (fun d hd' => hd d (List.mem_append_left _ hd')) .refl hbefore
  have ha := hpa.sound hp
  have hdevicea := (hpa.mem_devices hspares hp).2 hdevice
  have hfifoa := hfifo.allotting hp hdevice his hname (fun hN => hN ⟨rfl, rfl⟩) hpa
  have hsame := hpa.allotting_fifo hp (hp.lt_size_of_walkIn hfifo.below) his
  rw [lowerObjectFifos, get_bind_ok] at hown
  obtain ⟨l₁, l₂, s, t, hl, hfirst, hrun, hlast⟩ := forM_split
    (ha.toWellFormed.nodup_findIn (Program.mem_walk_of_mem_devices hdevicea) "aie.objectfifo")
    (List.mem_filter.2 ⟨hfifoa.below, (hsame.is _).trans his⟩) hown
  -- The other FIFOs of the device have other names.
  have hnames : ∀ x ∈ l₁ ++ l₂, x ∈ a.findIn device "aie.objectfifo" ∧
      ∀ other, (a.op x).textAttr? "sym_name" = some other → others device other := fun x hx => by
    obtain ⟨hmem, hne⟩ := hl x hx
    refine ⟨hmem, fun other hother heq => hne ?_⟩
    obtain ⟨hin, hisx⟩ := List.mem_filter.1 hmem
    have hold := hpa.findIn_of_old (EditRule.allotting_names.keeps_ne (by decide)) hp
      (Program.mem_walk_of_mem_devices hdevicea) hmem
    obtain ⟨hin, hisx⟩ := List.mem_filter.1 hold
    have hsamex := hpa.allotting_fifo hp (hp.lt_size_of_walkIn hin) hisx
    exact hunique x hold ((hsamex.textAttr? _).symm.trans (hother.trans (congrArg some heq.2)))
  obtain ⟨f, rfl⟩ := lowerObjectFifo_run hrun
  have has := lowerFifos_allots ha hdevicea (fun x hx => hnames x (List.mem_append_left _ hx)) .refl
    hfirst
  have hplace : a.FifoPlace device fifo :=
    ⟨ha, hdevicea, ha.lt_size_of_walkIn hfifoa.below, fun _ => hfifoa.below⟩
  have hsames := has.allotting_fifo ha hplace.created ((hsame.is _).trans his)
  have hst : s.Edits (.allotting fun _ _ => True) (f.accessed.erase fifo) :=
    f.allots (hplace.edits hspares has) ((hsames.is _).trans ((hsame.is _).trans his)) trivial
  have hat := (has.allotting_mono fun _ _ _ => trivial).trans hst
  have htb := lowerFifos_allots ha hdevicea (fun x hx => hnames x (List.mem_append_right _ hx)) hat
    hlast
  have hpb := (hpa.allotting_mono fun _ _ _ => trivial).trans
    (hat.trans (htb.allotting_mono fun _ _ _ => trivial))
  exact ⟨s, f, hpa.trans has, htb.trans (hdevices d₂ b q
    (fun d hd' => hd d (List.mem_append_right _ hd')) hpb hafter)⟩

/-! ### Allocations -/

namespace Program

/-- Whether the allocations of a device for a name have a property. -/
def AllotsOnly (p : Program) (device : OpId) (name : String) (P : OpId → Prop) : Prop :=
  ∀ id ∈ p.findIn device allocationName, (p.op id).operandSymbol? 0 = some name → P id

/-- Allotting channels to few FIFOs is allotting to no more than many. -/
theorem AllotsOnly.mono {P' : OpId → Prop} (h : p.AllotsOnly device name P)
    (hP : ∀ id, P id → P' id) : p.AllotsOnly device name P' :=
  fun id hid hsymbol => hP id (h id hid hsymbol)

/-- An operation that is created leaves the allocations of a device for a name alone, unless it is
one itself. -/
theorem AllotsOnly.created {parent : Option OpId} {op : Operation}
    (h : p.AllotsOnly device name P) (hp : p.Sound) (hdevice : device ∈ p.devices)
    (hq : p.Created parent op q)
    (hnew : op.is allocationName = true → op.operandSymbol? 0 = some name →
      (∃ b, parent = some b ∧ (b = device ∨ b ∈ p.walkIn device)) → P p.slots.size) :
    q.AllotsOnly device name P := by
  intro id hid hsymbol
  obtain ⟨hin, his⟩ := List.mem_filter.1 hid
  rcases (hq.walkIn device (mem_walk_of_mem_devices hdevice) id).1 hin with hold | ⟨rfl, hparent⟩
  · have hsame := hq.old id (hp.lt_size_of_walkIn hold)
    exact h id (List.mem_filter.2 ⟨hold, (hsame.is _).symm.trans his⟩)
      ((hsame.operandSymbol? 0).symm.trans hsymbol)
  · exact hnew ((hq.header.is _).symm.trans his)
      ((hq.header.operandSymbol? 0).symm.trans hsymbol) hparent

/-- FIFOs with other names, or of other devices, leave the allocations for a name alone. -/
theorem AllotsOnly.edits (h : p.AllotsOnly device name P) (hN : ¬ N device name) (hp : p.Sound)
    (hdevice : device ∈ p.devices) (hedits : p.Edits (.allotting N) q) :
    q.AllotsOnly device name P := by
  induction hedits with
  | refl => exact h
  | @tail r q hr hedit ih =>
      have hrsound := Edits.sound hr hp
      have hdevicer := (Edits.mem_devices EditRule.allotting_sparesDevices hp hr).2 hdevice
      have hwalk := mem_walk_of_mem_devices hdevicer
      cases hedit with
      | create parent i op hop =>
          refine ih.created hrsound hdevicer (created_insertAt hrsound parent i op) ?_
          rintro his hsymbol ⟨b, hb, hbelow⟩
          obtain ⟨owner, other, hother, hop, howner, hwithin⟩ := hop.2 his
          have hbwalk : b ∈ r.walk := by
            rcases hbelow with rfl | hbelow
            · exact hwalk
            · exact hrsound.mem_walk_of_walkIn hwalk hbelow
          obtain rfl := device_eq_of_within hrsound.toWellFormed (mem_devices.1 hdevicer).1
            (mem_devices.1 howner).1 hbelow (hwithin b hb hbwalk)
          rw [hsymbol, Option.some.injEq] at hop
          exact absurd (hop ▸ hother) hN
      | change j f hj hop =>
          intro id hid hsymbol
          obtain ⟨hin, his⟩ := List.mem_filter.1 hid
          rw [walkIn_modify] at hin
          obtain ⟨fifo, locks, hchange⟩ := hop
          by_cases hidj : id = j
          · subst hidj
            rw [op_modify_self hj, hchange] at his hsymbol
            rw [is_lowerAccess fifo locks _ (by decide)] at his
            rw [lowerAccess_eq_self fifo locks (by rw [beq_iff_eq.1 his]; decide)] at hsymbol
            exact ih id (List.mem_filter.2 ⟨hin, his⟩) hsymbol
          · rw [op_modify_of_ne hidj] at his hsymbol
            exact ih id (List.mem_filter.2 ⟨hin, his⟩) hsymbol
      | erase x hx hop =>
          intro id hid hsymbol
          obtain ⟨hin, his⟩ := List.mem_filter.1 hid
          have hcut := cut_erase hrsound hx
          have hthere : device ∈ (r.erase x).walk := mem_walk_of_mem_devices
            ((Edit.mem_devices EditRule.allotting_sparesDevices hrsound (.erase x hx hop)).2
              hdevicer)
          rw [op_erase] at his hsymbol
          exact ih id (List.mem_filter.2 ⟨((hcut.walkIn device hthere id).1 hin).1, his⟩) hsymbol

/-- Edits that make no allocation and change none leave the allocations for a name alone. -/
theorem AllotsOnly.edits_of_spares (h : p.AllotsOnly device name P)
    (hrule : rule.Spares allocationName) (hgives : rule.Keeps fun op => op.name ≠ allocationName)
    (hp : p.Sound) (hdevice : device ∈ q.walk) (hedits : p.Edits rule q) :
    q.AllotsOnly device name P := by
  intro id hid hsymbol
  have hold := hedits.findIn_of_old hgives hp hdevice hid
  obtain ⟨hin, his⟩ := List.mem_filter.1 hold
  have hsame := hedits.spared hrule hp (hp.lt_size_of_walkIn hin) his
  exact h id hold ((hsame.operandSymbol? 0).symm.trans hsymbol)

end Program

/-! ### The stream of a FIFO -/

/-- The end of a stream between two tiles on the one that faces the host. -/
def hostEnd (a b : Tile) (source destination : Nat) : ShimAllocation :=
  if a.row = 0 then ⟨"MM2S", source, a.column⟩ else ⟨"S2MM", destination, b.column⟩

/-- The stream that a FIFO has become, after its second lock and before the record of its channel,
which is the only one for the name in the device. -/
structure Program.HostStream (p : Program) (device : OpId) (name producer consumer : String)
    (source destination : Nat) (a : ShimAllocation) (first : OpId) : Prop where
  lock : ∃ op, p.Stands device first op ∧ op.is "aie.lock" = true ∧
    op.textAttr? "sym_name" = some s!"{name}_cons_lock"
  stream : p.Stands device (first + 1) (streamPart producer consumer source destination)
  allocation : p.Stands device (first + 2) (allocationPart name a)
  only : p.AllotsOnly device name (· = first + 2)

/-- The names of the operations of such a stream. -/
def hostStreamNames : List String :=
  ["aie.lock", "aie.flow", allocationName]

/-- The parts of a stream to the host are neither FIFOs nor accesses. -/
theorem hostStreamNames_ne : ∀ kind ∈ hostStreamNames,
    kind ∉ ["aie.objectfifo", "aie.objectfifo.acquire", "aie.objectfifo.release"] := by
  decide

/-- The stream of a FIFO stays when edits spare it and record nothing else for its name. -/
theorem Program.HostStream.edits {producer consumer : String} {source destination : Nat}
    {a : ShimAllocation} {first : OpId}
    (h : p.HostStream device name producer consumer source destination a first)
    (hrule : ∀ kind ∈ hostStreamNames, rule.Spares kind)
    (hspares : rule.SparesDevices) (hp : p.Sound) (hdevice : device ∈ p.devices)
    (hedits : p.Edits rule q) (honly : q.AllotsOnly device name (· = first + 2)) :
    q.HostStream device name producer consumer source destination a first where
  lock := by
    obtain ⟨op, hop, his, hname⟩ := h.lock
    exact ⟨op, hop.edits (hrule "aie.lock" (by simp [hostStreamNames])) hspares hp hdevice his
      hedits, his, hname⟩
  stream := h.stream.edits (hrule "aie.flow" (by simp [hostStreamNames])) hspares hp
    hdevice rfl hedits
  allocation := h.allocation.edits (hrule allocationName (by simp [hostStreamNames])) hspares hp
    hdevice rfl hedits
  only := honly

/-- The record of the channel is the only one for the name, and the one that is looked up. -/
theorem Program.HostStream.allocations {producer consumer : String} {source destination : Nat}
    {a : ShimAllocation} {first : OpId} (hp : p.Sound) (hdevice : device ∈ p.devices)
    (h : p.HostStream device name producer consumer source destination a first) :
    (p.findIn device allocationName).filter (fun id => (p.op id).operandSymbol? 0 == some name) =
      [first + 2] := by
  have hmem : first + 2 ∈ p.findIn device allocationName := h.allocation.mem_findIn rfl
  have hsymbol : (p.op (first + 2)).operandSymbol? 0 = some name :=
    h.allocation.header.operandSymbol? 0
  have hnodup :=
    (hp.toWellFormed.nodup_findIn (mem_walk_of_mem_devices hdevice) allocationName).filter
    fun id => (p.op id).operandSymbol? 0 == some name
  refine (List.perm_singleton.1 ((List.perm_ext_iff_of_nodup hnodup (List.nodup_singleton _)).2
    fun id => ?_))
  rw [List.mem_filter, List.mem_singleton, beq_iff_eq]
  constructor
  · rintro ⟨hid, hname⟩
    exact h.only id hid hname
  · rintro rfl
    exact ⟨hmem, hsymbol⟩

/-- The allocation of a stream to the host is the one its name finds. -/
theorem Program.HostStream.shimAllocation?_eq {producer consumer : String}
    {source destination : Nat} {a : ShimAllocation} {first : OpId}
    (hp : p.Sound) (hdevice : device ∈ p.devices)
    (h : p.HostStream device name producer consumer source destination a first) :
    p.shimAllocation? device name = some a := by
  have hoperands := h.allocation.header.operands
  have hfilter := h.allocations hp hdevice
  rw [shimAllocation?, ← List.head?_filter]
  change (((p.findIn device allocationName).filter _).head?.bind _) = _
  rw [hfilter, List.head?_singleton, Option.bind_some, Operation.allocation?]
  simp only [Operation.operandText?, Operation.operandInt?, hoperands]
  rfl

/-- FIFOs are erased, and accesses become uses of locks. -/
def EditRule.consuming : EditRule where
  creates _ _ _ := False
  changes := EditRule.fifos.changes
  erases := EditRule.fifos.erases

/-- The consumer's side leaves devices alone. -/
theorem EditRule.consuming_sparesDevices : EditRule.consuming.SparesDevices where
  creates _ _ _ hop := hop.elim
  changes := fifos_sparesDevices.changes
  erases := fifos_sparesDevices.erases

/-- The consumer's side erases nothing but FIFOs and their accesses. -/
theorem EditRule.consuming_spares {name : String}
    (hname : name ∉ ["aie.objectfifo", "aie.objectfifo.acquire", "aie.objectfifo.release"]) :
    EditRule.consuming.Spares name where
  changes := (allotting_spares (N := fun _ _ => False) hname).changes
  erases p id (hop : (p.op id).is "aie.objectfifo" = true) :=
    Operation.not_is_of_is hop (by rintro rfl; exact hname (by simp))

/-- The consumer's side creates no allocation. -/
theorem EditRule.consuming_keeps_ne : EditRule.consuming.Keeps fun op => op.name ≠ allocationName :=
  have hnames : EditRule.consuming.Names ("aie.use_lock" :: []) :=
    ⟨fun _ _ _ hop => False.elim hop, fun p id op hop => by
      obtain ⟨name, locks, rfl⟩ := hop
      rcases lowerAccess_cases name locks (p.op id) with h | ⟨-, -, h, -⟩
      · exact .inl (congrArg _ h)
      · exact .inr (h ▸ List.mem_cons_self)⟩
  hnames.keeps_ne (by decide)

/-- What happens to a FIFO after its parts are created. -/
theorem FifoRun.consumes (f : FifoRun device fifo p) (hs : f.streamed.Sound)
    (hlt : fifo < f.streamed.slots.size)
    (his : (f.streamed.op fifo).is "aie.objectfifo" = true) :
    f.streamed.Edits .consuming (f.accessed.erase fifo) := by
  have haccesses : f.streamed.Edits .consuming f.accessed :=
    lowerAccesses_changes hs (fun _ _ => ⟨_, _, rfl⟩) f.accesses
  refine haccesses.trans (.single (.erase fifo (Nat.lt_of_lt_of_le hlt (haccesses.size_le hs)) ?_))
  exact (haccesses.is_eq hs (fun p id op hop => EditRule.fifos_dissolves.changes p id op hop)
    hlt).trans his

/-- Of a FIFO of which one tile faces the host, this end of the stream is recorded. -/
theorem FifoRun.streamed_eq (f : FifoRun device fifo p)
    (hone : f.shape.producerTile.row = 0 ↔ f.shape.consumerTile.row ≠ 0) :
    ∃ source destination : Nat, f.streamed = ((f.consumed.insertBefore fifo
      (streamPart f.shape.producer f.shape.consumer source destination)).2.insertBefore fifo
        (allocationPart f.shape.name
          (hostEnd f.shape.producerTile f.shape.consumerTile source destination))).2 := by
  obtain ⟨htiles, -⟩ | ⟨source, destination, r, -, -, -, hsource, hdestination⟩ :=
    insertStream_ok f.stream
  · rw [htiles] at hone
    exact absurd hone iff_not_self
  refine ⟨source, destination, ?_⟩
  rcases insertAllocation_ok hsource with ⟨hrow, rfl⟩ | ⟨hrow, rfl⟩
  · rcases insertAllocation_ok hdestination with ⟨hrow', -⟩ | ⟨-, heq⟩
    · exact absurd hrow' (hone.1 hrow)
    · rw [heq, hostEnd, if_pos hrow]
  · rcases insertAllocation_ok hdestination with ⟨-, heq⟩ | ⟨hrow', -⟩
    · rw [heq, hostEnd, if_neg hrow]
    · exact absurd (hone.2 hrow') hrow

/-- The parts of a FIFO right in a device: the second lock, the stream and the record of its channel
are created one after the other. -/
theorem FifoRun.streamed_hostStream (f : FifoRun device fifo p) (hp : p.Sound)
    (hdevice : device ∈ p.devices) (hfifo : p.Outermost device fifo)
    (his : (p.op fifo).is "aie.objectfifo" = true)
    (hfree : p.AllotsOnly device f.shape.name fun _ => False)
    (hone : f.shape.producerTile.row = 0 ↔ f.shape.consumerTile.row ≠ 0) :
    p.Edits (.allotting fun _ _ => True) f.streamed ∧ ∃ source destination : Nat,
      f.streamed.HostStream device f.shape.name f.shape.producer f.shape.consumer source destination
        (hostEnd f.shape.producerTile f.shape.consumerTile source destination)
        f.produced.slots.size := by
  -- The parts are put before the FIFO, and leave it where it is.
  have hplace : ∀ t, p.Edits (.allotting fun _ _ => False) t → t.Sound ∧ device ∈ t.devices ∧
      t.Outermost device fifo ∧ t.AllotsOnly device f.shape.name fun _ => False := fun t ht =>
    ⟨ht.sound hp, (ht.mem_devices EditRule.allotting_sparesDevices hp).2 hdevice,
      hfifo.allotting hp hdevice his f.read.name (fun hfalse => hfalse) ht,
      hfree.edits (fun hfalse => hfalse) hp hdevice ht⟩
  have hproduced := f.produced_allots (N := fun _ _ => False) hp
  have hconsumed := hproduced.trans f.consumed_allots
  obtain ⟨source, destination, hstreamed⟩ := f.streamed_eq hone
  have hflowed := insertBefore_stream_allots (N := fun _ _ => False) f.consumed fifo
    f.shape.producer
    f.shape.consumer source destination
  obtain ⟨hsound₂, hdevice₂, hfifo₂, -⟩ := hplace _ hproduced
  obtain ⟨hsound₃, hdevice₃, hfifo₃, -⟩ := hplace _ hconsumed
  obtain ⟨hsound₄, hdevice₄, hfifo₄, hfree₄⟩ := hplace _ (hconsumed.trans hflowed)
  obtain ⟨-, _, n, -, -, -, hinsert⟩ := insertLock_ok f.consumer
  rw [runOn_insertBefore, Prod.mk.injEq] at hinsert
  have hlock := hfifo₂.created hsound₂ hdevice₂
    (lockPart f.shape "cons_lock" f.locks.consumer n 0)
  have hflow := hfifo₃.created hsound₃ hdevice₃
    (streamPart f.shape.producer f.shape.consumer source destination)
  have hrecord := hfifo₄.created hsound₄ hdevice₄ (allocationPart f.shape.name
    (hostEnd f.shape.producerTile f.shape.consumerTile source destination))
  rw [hinsert.2] at hlock
  rw [← hstreamed] at hrecord
  have hlast : (f.consumed.insertBefore fifo (streamPart f.shape.producer f.shape.consumer source
      destination)).2.Edits (.allotting fun _ _ => True) f.streamed := by
    rw [hstreamed]
    exact Program.FifoPlace.insertAllocation ⟨hsound₄, hdevice₄,
      hsound₄.lt_size_of_walkIn hfifo₄.below, fun _ => hfifo₄.below⟩ trivial
  have hboth := (hflowed.allotting_mono fun _ _ hfalse => hfalse.elim).trans hlast
  have hspares := @EditRule.allotting_sparesDevices fun _ _ => True
  have hlocks : (EditRule.allotting fun _ _ => True).Spares "aie.lock" :=
    EditRule.allotting_spares (by decide)
  have hflows : (EditRule.allotting fun _ _ => True).Spares "aie.flow" :=
    EditRule.allotting_spares (by decide)
  have hsize₃ := hlock.size
  have hsize₄ := hflow.size
  have hlock := hlock.stands hsound₂ hdevice₂
  have hflow := hflow.stands hsound₃ hdevice₃
  have hrecorded := hrecord.stands hsound₄ hdevice₄
  rw [hsize₃] at hsize₄ hflow
  rw [hsize₄] at hrecorded
  refine ⟨(hconsumed.allotting_mono fun _ _ hfalse => hfalse.elim).trans hboth, source, destination,
    ⟨_, hlock.edits hlocks hspares hsound₃ hdevice₃ rfl hboth, rfl, ?_⟩,
    hflow.edits hflows hspares hsound₄ hdevice₄ rfl hlast, hrecorded, ?_⟩
  · rw [textAttr?_lockPart, String.append_assoc]
    rfl
  · exact Program.AllotsOnly.created (hfree₄.mono fun _ hfalse => hfalse.elim) hsound₄ hdevice₄
      hrecord fun _ _ _ => hsize₄

/-- A FIFO right in a device, of which one tile faces the host, becomes a stream with the record of
its channel there. -/
theorem FifoRun.hostStream (f : FifoRun device fifo p) (hp : p.Sound) (hdevice : device ∈ p.devices)
    (hfifo : p.Outermost device fifo) (his : (p.op fifo).is "aie.objectfifo" = true)
    (hfree : p.AllotsOnly device f.shape.name fun _ => False)
    (hone : f.shape.producerTile.row = 0 ↔ f.shape.consumerTile.row ≠ 0) :
    ∃ (source destination : Nat) (first : OpId), p.slots.size ≤ first ∧
      (f.accessed.erase fifo).HostStream device f.shape.name f.shape.producer
    f.shape.consumer source
        destination (hostEnd f.shape.producerTile f.shape.consumerTile source destination)
        first := by
  obtain ⟨hedits, source, destination, hstream⟩ :=
    f.streamed_hostStream hp hdevice hfifo his hfree hone
  have hsound := hedits.sound hp
  have hlt := hp.lt_size_of_walkIn hfifo.below
  have hstreamed := (hedits.mem_devices EditRule.allotting_sparesDevices hp).2 hdevice
  have hconsumes := f.consumes hsound (Nat.lt_of_lt_of_le hlt (hedits.size_le hp))
    (((hedits.allotting_fifo hp hlt his).is _).trans his)
  have hspares : ∀ kind ∈ hostStreamNames, EditRule.consuming.Spares kind :=
    fun kind hkind => EditRule.consuming_spares (hostStreamNames_ne kind hkind)
  refine ⟨source, destination, _, (f.produced_allots (N := fun _ _ => False) hp).size_le hp,
    hstream.edits hspares EditRule.consuming_sparesDevices hsound hstreamed hconsumes ?_⟩
  exact hstream.only.edits_of_spares (hspares allocationName (by simp [hostStreamNames]))
    EditRule.consuming_keeps_ne
    hsound (Program.mem_walk_of_mem_devices
      ((hconsumes.mem_devices EditRule.consuming_sparesDevices hsound).2 hstreamed)) hconsumes

end TileFlow
