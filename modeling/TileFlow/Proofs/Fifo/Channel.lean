import TileFlow.Proofs.Memory.Locks
import TileFlow.Proofs.Program.Dictionary
import TileFlow.Proofs.Stage.Action

/-!
# Channels of object FIFOs

The stage that replaces object FIFOs creates buffers, locks, streams and records of streams before
each of them, turns accesses into uses of locks, and leaves no FIFO in any device. What it creates
is told by the program at that moment: a lock gets an identifier that no other lock of the device
has on the tile, and a stream gets the channels that as many streams use as come before it.

## Main definitions

* `FifoPart`: an operation that a FIFO becomes.
* `EditRule.fifos`: the edits of the stage.
* `Hosts`: a place for the parts of a FIFO.

## Main results

* `lowerObjectFifos_edits`: what the stage does.
-/

namespace TileFlow

open TileFlow.Action

variable {p q r : Program} {device fifo : OpId} {shape : FifoShape}

/-! ### Parts -/

/-- An operation that a FIFO of a device becomes, created at a place. -/
inductive FifoPart (p : Program) (device : OpId) (parent : Option OpId) : Operation → Prop
  | slot (op : Operation) (value : String) (tile : Tile) (name : op.is "aie.buffer" = true)
      (operands : op.operands = [.value value]) (place : p.tileOf? value = some tile) :
      FifoPart p device parent op
  | lock (op : Operation) (value : String) (tile : Tile) (n : Int) (name : op.is "aie.lock" = true)
      (operands : op.operands = [.value value, .int n]) (place : p.tileOf? value = some tile)
      (least : 0 ≤ n) (limit : n < (p.modelOf device).lockCount tile.row)
      (free : n ∉ p.lockIdsOn device tile) (within : p.Within device parent) :
      FifoPart p device parent op
  | stream (producer consumer : String) (source destination : Tile)
      (producerTile : p.tileOf? producer = some source)
      (consumerTile : p.tileOf? consumer = some destination) (within : p.Within device parent) :
      FifoPart p device parent
        { name := "aie.flow"
          operands :=
            [.value producer, .ident "DMA", .int (p.dmaChannelsInUse device source .source),
              .value consumer, .ident "DMA",
              .int (p.dmaChannelsInUse device destination .destination)] }
  | allocation (op : Operation) (name : op.is "aie.shim_dma_allocation" = true)
      (result : op.result = none) : FifoPart p device parent op

/-- The names of the operations that FIFOs become. -/
def fifoPartNames : List String :=
  ["aie.buffer", "aie.lock", "aie.flow", "aie.shim_dma_allocation"]

/-- The names of the parts of a FIFO. -/
theorem FifoPart.name_mem {parent : Option OpId} {op : Operation}
    (h : FifoPart p device parent op) : op.name ∈ fifoPartNames := by
  cases h with
  | slot _ _ _ hname => simp [fifoPartNames, beq_iff_eq.1 hname]
  | lock _ _ _ _ hname => simp [fifoPartNames, beq_iff_eq.1 hname]
  | stream => simp [fifoPartNames]
  | allocation _ hname => simp [fifoPartNames, beq_iff_eq.1 hname]

/-- Parts of FIFOs are created, at places above FIFOs. -/
def EditRule.fifoParts : EditRule where
  creates p parent op := (∃ device ∈ p.devices, FifoPart p device parent op) ∧
    ∃ fifo, (p.op fifo).is "aie.objectfifo" = true ∧ p.Above fifo parent
  changes _ _ _ := False
  erases _ _ := False

/-- FIFOs are erased, their parts are created and their accesses become uses of locks. -/
def EditRule.fifos : EditRule where
  creates := EditRule.fifoParts.creates
  changes p id op := ∃ name locks, op = lowerAccess name locks (p.op id)
  erases p id := (p.op id).is "aie.objectfifo" = true

/-- What lowering FIFOs creates are parts of FIFOs. -/
theorem EditRule.fifos_name_mem {parent : Option OpId} {op : Operation}
    (h : EditRule.fifos.creates p parent op) : op.name ∈ fifoPartNames := by
  obtain ⟨⟨device, -, hpart⟩, -⟩ := h
  exact hpart.name_mem

/-! ### Accesses -/

/-- The names of accesses. -/
theorem Access.name_mem {op : Operation} {access : Access} (h : Access.of? op = some access) :
    op.name ∈ ["aie.objectfifo.acquire", "aie.objectfifo.release"] := by
  rw [Access.of?] at h
  split at h
  · rename_i hname
    simp [beq_iff_eq.1 hname]
  · split at h
    · rename_i hname
      simp [beq_iff_eq.1 hname]
    · cases h

/-- An operation that accesses a FIFO becomes a use of a lock, and no other one changes. -/
theorem lowerAccess_cases (name : String) (locks : LockPair) (op : Operation) :
    lowerAccess name locks op = op ∨
      (op.name ∈ ["aie.objectfifo.acquire", "aie.objectfifo.release"] ∧
        op.operandValue? 0 = none ∧ (lowerAccess name locks op).name = "aie.use_lock" ∧
        (lowerAccess name locks op).result = op.result) := by
  rw [lowerAccess]
  split
  · exact .inl rfl
  · rename_i access haccess
    split
    · rename_i hsymbol
      refine .inr ⟨Access.name_mem haccess, ?_, rfl, rfl⟩
      obtain ⟨a, ha, hv⟩ := Option.bind_eq_some_iff.1 hsymbol
      rw [Operation.operandValue?, ha, Option.bind_some]
      cases a <;> first | rfl | cases hv
    · exact .inl rfl

/-- What is no access by its name is left as it is. -/
theorem lowerAccess_eq_self (name : String) (locks : LockPair) {op : Operation}
    (h : op.name ∉ ["aie.objectfifo.acquire", "aie.objectfifo.release"]) :
    lowerAccess name locks op = op :=
  (lowerAccess_cases name locks op).resolve_right fun hop => h hop.1

/-- Lowering an access does not touch other names. -/
theorem is_lowerAccess (name : String) (locks : LockPair) (op : Operation) {other : String}
    (hother : other ∉ ["aie.objectfifo.acquire", "aie.objectfifo.release", "aie.use_lock"]) :
    (lowerAccess name locks op).is other = op.is other := by
  rcases lowerAccess_cases name locks op with h | ⟨hold, -, hnew, -⟩
  · rw [h]
  · simp only [List.mem_cons, List.not_mem_nil, or_false, not_or] at hother
    obtain ⟨hacquire, hrelease, huse⟩ := hother
    rw [Operation.not_is_of_is (a := "aie.use_lock") (by simp [Operation.is, hnew]) (Ne.symm huse),
      Operation.not_is_of_mem hold (by simp [hacquire, hrelease])]

/-- Lowering an access keeps its result. -/
theorem result_lowerAccess (name : String) (locks : LockPair) (op : Operation) :
    (lowerAccess name locks op).result = op.result := by
  rcases lowerAccess_cases name locks op with h | ⟨-, -, -, h⟩
  · rw [h]
  · exact h

/-- Lowering an access keeps its region. -/
theorem hasRegion_lowerAccess (name : String) (locks : LockPair) (op : Operation) :
    (lowerAccess name locks op).hasRegion = op.hasRegion := by
  rw [lowerAccess]
  split
  · rfl
  · split <;> rfl

/-- An operation that is no access keeps its operands. -/
theorem operands_lowerAccess (name : String) (locks : LockPair) {op : Operation} {other : String}
    (hother : other ∉ ["aie.objectfifo.acquire", "aie.objectfifo.release"])
    (hop : op.is other = true) : (lowerAccess name locks op).operands = op.operands := by
  rw [lowerAccess_eq_self name locks (beq_iff_eq.1 hop ▸ hother)]

/-- Lowering an access keeps the place of an operation. -/
theorem lowerAccess_keepsPlace (name : String) (locks : LockPair) (op : Operation) :
    Program.KeepsPlace (lowerAccess name locks op) op where
  result := (result_lowerAccess name locks op).symm
  isTile := (is_lowerAccess name locks op (by decide)).symm
  tile htile := by
    rw [Operation.tile?, Operation.tile?, Operation.operandInt?, Operation.operandInt?,
      Operation.operandInt?, Operation.operandInt?,
      operands_lowerAccess name locks (by decide) htile]
  operand v hv := by
    rcases lowerAccess_cases name locks op with h | ⟨-, hnone, -⟩
    · rwa [h]
    · rw [hnone] at hv
      cases hv

/-! ### The rule -/

/-- Lowering FIFOs leaves devices alone. -/
theorem EditRule.fifos_sparesDevices : EditRule.fifos.SparesDevices where
  creates _ _ _ hop := Operation.not_is_of_mem (fifos_name_mem hop) (by decide)
  changes p id op hop := by
    obtain ⟨name, locks, rfl⟩ := hop
    exact is_lowerAccess name locks _ (by decide)
  erases _ _ hop := Operation.not_is_of_is hop (by decide)

/-- Lowering FIFOs leaves none of them. -/
theorem EditRule.fifos_dissolves : EditRule.fifos.Dissolves "aie.objectfifo" where
  creates _ _ _ hop := Operation.not_is_of_mem (fifos_name_mem hop) (by decide)
  changes p id op hop := by
    obtain ⟨name, locks, rfl⟩ := hop
    exact is_lowerAccess name locks _ (by decide)
  erases _ _ hop := hop

/-- Lowering FIFOs creates the parts of FIFOs and uses of locks. -/
theorem EditRule.fifos_names : EditRule.fifos.Names ("aie.use_lock" :: fifoPartNames) where
  creates _ _ _ hop := List.mem_cons_of_mem _ (fifos_name_mem hop)
  changes p id op hop := by
    obtain ⟨name, locks, rfl⟩ := hop
    rcases lowerAccess_cases name locks (p.op id) with h | ⟨-, -, h, -⟩
    · rw [h]
      exact .inl rfl
    · rw [h]
      exact .inr List.mem_cons_self

/-- Lowering FIFOs leaves the locks there are. -/
theorem EditRule.fifos_leavesLocks : EditRule.fifos.LeavesLocks where
  isLock p id op hop := by
    obtain ⟨name, locks, rfl⟩ := hop
    exact is_lowerAccess name locks _ (by decide)
  lock p id op hop hlock _ := by
    obtain ⟨name, locks, rfl⟩ := hop
    exact operands_lowerAccess name locks (by decide) hlock
  isDevice := fifos_sparesDevices.changes
  device p id op hop hdevice := by
    obtain ⟨name, locks, rfl⟩ := hop
    exact operands_lowerAccess name locks (by decide) hdevice

/-- Creating the parts of a FIFO leaves devices alone. -/
theorem EditRule.fifoParts_sparesDevices : EditRule.fifoParts.SparesDevices where
  creates := fifos_sparesDevices.creates
  changes _ _ _ hop := hop.elim
  erases _ _ hop := hop.elim

/-- The names of what is created for a FIFO. -/
theorem EditRule.fifoParts_names : EditRule.fifoParts.Names fifoPartNames where
  creates _ _ _ hop := fifos_name_mem hop
  changes _ _ _ hop := hop.elim

/-- Creating the parts of a FIFO is a step of lowering FIFOs. -/
theorem Program.Edits.fifos (h : p.Edits .fifoParts q) : p.Edits .fifos q :=
  h.mono (fun _ _ _ hop => hop) (fun _ _ _ hop => hop.elim) fun _ _ hop => hop.elim

/-! ### The place of the parts -/

/-- A program in which the parts of a FIFO of a device have a place, and its values name the tiles
of the FIFO. -/
structure Hosts (p : Program) (device fifo : OpId) (shape : FifoShape) : Prop where
  sound : p.Sound
  values : p.definedValues.Nodup
  inDevice : device ∈ p.devices
  created : fifo < p.slots.size
  isFifo : (p.op fifo).is "aie.objectfifo" = true
  below : fifo ∈ p.walk → fifo ∈ p.walkIn device
  producer : p.tileOf? shape.producer = some shape.producerTile
  consumer : p.tileOf? shape.consumer = some shape.consumerTile

/-- Parts that are created leave the place of further parts. -/
theorem Hosts.edits (h : Hosts p device fifo shape) (hedits : p.Edits .fifoParts q) :
    Hosts q device fifo shape := by
  have hev := hedits.evolves h.sound
  have hvalues := hedits.nodup h.sound h.values
  have hdevice := (hedits.mem_devices EditRule.fifoParts_sparesDevices h.sound).2 h.inDevice
  have hresolves : q.Resolves p := hedits.resolves h.sound (fun _ _ _ hop => hop.elim)
    fun _ _ _ hop => hop.elim
  have hname := (hedits.sameHeader h.sound (fun _ _ _ hop => hop) h.created).is "aie.objectfifo"
  refine ⟨hev.sound, hvalues, hdevice, Nat.lt_of_lt_of_le h.created hev.size,
    hname.trans h.isFifo, fun hmem => ?_,
    hresolves.tileOf? hvalues h.producer, hresolves.tileOf? hvalues h.consumer⟩
  exact (hev.walkIn device (Program.mem_walk_of_mem_devices hdevice) fifo hmem h.created).2
    ⟨h.sound.created device (Program.mem_walk_of_mem_devices h.inDevice),
      h.below (hev.walk fifo hmem h.created)⟩

/-- A part is created before its FIFO, in the device if the FIFO is in the body at all. -/
theorem Hosts.insertBefore {op : Operation} {id : OpId} (h : Hosts p device fifo shape)
    (hrun : runOn (Action.insertBefore fifo op) p = (.ok id, q))
    (part : ∀ parent, p.Within device parent → FifoPart p device parent op)
    (fresh : ∀ v, op.result = some v → v ∉ p.definedValues) : p.Edits .fifoParts q := by
  obtain ⟨parent, i, heq, hwithin, habove⟩ := Program.insertBefore_within h.sound
    (Program.mem_devices.1 h.inDevice).1 h.below op
  rw [runOn_insertBefore, heq, Prod.mk.injEq] at hrun
  obtain ⟨-, rfl⟩ := hrun
  exact .single (.create parent i op
    ⟨⟨device, h.inDevice, part parent hwithin⟩, fifo, h.isFifo, habove⟩ fresh)

/-- A buffer of a FIFO is created under every rule that lets buffers be. -/
theorem insertSlot_creates {rule : EditRule} {i : Nat}
    (creates : ∀ parent op, op.is "aie.buffer" = true → rule.creates p parent op)
    (h : runOn (insertSlot fifo shape i) p = (.ok (), q)) : p.Edits rule q := by
  rw [insertSlot] at h
  dsimp only at h
  rw [get_bind_ok] at h
  obtain ⟨_, r, hinsert, h⟩ := bind_ok.1 h
  obtain ⟨-, rfl⟩ := pure_ok.1 h
  refine insertBefore_edits hinsert (fun parent => creates parent _ rfl) fun v hv => ?_
  cases hv
  exact p.freshValue_notMem _

/-- A slot is created by the rules. -/
theorem insertSlot_edits {i : Nat} (h : Hosts p device fifo shape)
    (hrun : runOn (insertSlot fifo shape i) p = (.ok (), q)) : p.Edits .fifoParts q := by
  rw [insertSlot] at hrun
  dsimp only at hrun
  rw [get_bind_ok] at hrun
  obtain ⟨_, r, hinsert, hrun⟩ := bind_ok.1 hrun
  obtain ⟨-, rfl⟩ := pure_ok.1 hrun
  refine h.insertBefore hinsert (fun _ _ => .slot _ _ _ rfl rfl h.consumer) fun v hv => ?_
  cases hv
  exact p.freshValue_notMem _

/-- The identifier of a new lock is one of the tile that no lock of the device has there. -/
theorem nextFreeLockId_ok {tile : Tile} {n : Int}
    (h : runOn (nextFreeLockId device tile) p = (.ok n, q)) :
    p = q ∧ 0 ≤ n ∧ n < (p.modelOf device).lockCount tile.row ∧ n ∉ p.lockIdsOn device tile := by
  rw [nextFreeLockId, get_bind_ok] at h
  dsimp only at h
  obtain ⟨hfree, rfl⟩ := orFail_ok.1 h
  obtain ⟨hpos, hlimit, hnot⟩ := LockLedger.firstFree?_eq_some hfree
  exact ⟨rfl, hpos, hlimit, fun hmem => hnot (List.mem_map_of_mem hmem)⟩

/-- The operation of a lock of a FIFO. -/
def lockPart (shape : FifoShape) (suffix value : String) (n initial : Int) : Operation where
  name := "aie.lock"
  result := some value
  operands := [.value shape.consumer, .int n]
  attributes := .ofList [("init", .int initial), ("sym_name", .str s!"{shape.name}_{suffix}")]

/-- The symbol of a lock of a FIFO. -/
theorem textAttr?_lockPart (shape : FifoShape) (suffix value : String) (n initial : Int) :
    (lockPart shape suffix value n initial).textAttr? "sym_name" =
      some s!"{shape.name}_{suffix}" := by
  rw [Operation.textAttr?, Operation.attr?, lockPart, Dictionary.get?_ofList]
  rfl

/-- A lock of a FIFO is put before it, with the next identifier and a value made from its symbol. -/
theorem insertLock_run {suffix value : String} {initial : Int}
    (h : runOn (insertLock device fifo shape suffix initial) p = (.ok value, q)) :
    value = p.freshValue s!"{shape.name}_{suffix}" ∧ ∃ n,
      runOn (nextFreeLockId device shape.consumerTile) p = (.ok n, p) ∧
      q = (p.insertBefore fifo (lockPart shape suffix value n initial)).2 := by
  rw [insertLock] at h
  dsimp only at h
  obtain ⟨n, r, hnext, h⟩ := bind_ok.1 h
  obtain ⟨rfl, -⟩ := nextFreeLockId_ok hnext
  rw [get_bind_ok] at h
  obtain ⟨id, r, hinsert, h⟩ := bind_ok.1 h
  obtain ⟨rfl, rfl⟩ := pure_ok.1 h
  rw [runOn_insertBefore, Prod.mk.injEq] at hinsert
  exact ⟨rfl, n, hnext, hinsert.2.symm⟩

/-- What a run of `insertLock` creates: a lock with a value and an identifier that are both free. -/
theorem insertLock_ok {suffix value : String} {initial : Int}
    (h : runOn (insertLock device fifo shape suffix initial) p = (.ok value, q)) :
    value ∉ p.definedValues ∧ ∃ (id : OpId) (n : Int), 0 ≤ n ∧
      n < (p.modelOf device).lockCount shape.consumerTile.row ∧
      n ∉ p.lockIdsOn device shape.consumerTile ∧
      runOn (Action.insertBefore fifo (lockPart shape suffix value n initial)) p = (.ok id, q) := by
  obtain ⟨rfl, n, hnext, rfl⟩ := insertLock_run h
  obtain ⟨-, hpos, hlimit, hfree⟩ := nextFreeLockId_ok hnext
  exact ⟨p.freshValue_notMem _, _, n, hpos, hlimit, hfree, runOn_insertBefore ..⟩

/-- A lock of a FIFO is created under every rule that lets locks be. -/
theorem insertLock_creates {rule : EditRule} {suffix value : String} {initial : Int}
    (creates : ∀ parent op, op.is "aie.lock" = true → rule.creates p parent op)
    (h : runOn (insertLock device fifo shape suffix initial) p = (.ok value, q)) :
    p.Edits rule q := by
  obtain ⟨hfresh, id, n, -, -, -, hinsert⟩ := insertLock_ok h
  refine insertBefore_edits hinsert (fun parent => creates parent _ rfl) fun v hv => ?_
  cases hv
  exact hfresh

/-- A lock is created by the rules. -/
theorem insertLock_edits {suffix value : String} {initial : Int} (h : Hosts p device fifo shape)
    (hrun : runOn (insertLock device fifo shape suffix initial) p = (.ok value, q)) :
    p.Edits .fifoParts q := by
  obtain ⟨hfresh, id, n, hpos, hlimit, hfree, hinsert⟩ := insertLock_ok hrun
  refine h.insertBefore hinsert
    (fun _ hwithin => .lock _ _ _ n rfl rfl h.consumer hpos hlimit hfree hwithin) fun v hv => ?_
  cases hv
  exact hfresh

/-- An allocation is created by the rules. -/
theorem insertAllocation_edits {name direction : String} {tile : Tile} {channel : Nat}
    (h : Hosts p device fifo shape)
    (hrun : runOn (insertAllocation device fifo name direction tile channel) p = (.ok (), q)) :
    p.Edits .fifoParts q := by
  rw [insertAllocation, get_bind_ok] at hrun
  split at hrun
  · obtain ⟨_, r, hinsert, hrun⟩ := bind_ok.1 hrun
    obtain ⟨-, rfl⟩ := pure_ok.1 hrun
    exact h.insertBefore hinsert (fun _ _ => .allocation _ rfl rfl) (Program.fresh_of_none rfl)
  · obtain ⟨-, rfl⟩ := pure_ok.1 hrun
    exact .refl

/-- The flow is created by the rules. -/
theorem insertStream_edits (h : Hosts p device fifo shape)
    (hrun : runOn (insertStream device fifo shape) p = (.ok (), q)) : p.Edits .fifoParts q := by
  rw [insertStream] at hrun
  split at hrun
  · rw [get_bind_ok] at hrun
    dsimp only at hrun
    obtain ⟨_, r, hinsert, hrun⟩ := bind_ok.1 hrun
    obtain ⟨_, s, hsource, hdestination⟩ := bind_ok.1 hrun
    have hr := h.insertBefore hinsert
      (fun _ hwithin => .stream _ _ _ _ h.producer h.consumer hwithin) (Program.fresh_of_none rfl)
    have hs := hr.trans (insertAllocation_edits (h.edits hr) hsource)
    exact hs.trans (insertAllocation_edits (h.edits hs) hdestination)
  · obtain ⟨-, rfl⟩ := pure_ok.1 hrun
    exact .refl

/-! ### The stage -/

/-- What a FIFO asks for: a name, a depth, a size and two values that name tiles. -/
structure FifoShape.ReadFrom (shape : FifoShape) (p : Program) (fifo : OpId) : Prop where
  name : (p.op fifo).textAttr? "sym_name" = some shape.name
  depth : shape.depth = ((p.op fifo).intAttr? "depth").getD 2
  positive : 1 ≤ shape.depth
  size : (p.op fifo).intAttr? "size" = some shape.size
  producerValue : (p.op fifo).operandValue? 0 = some shape.producer
  consumerValue : (p.op fifo).operandValue? 1 = some shape.consumer
  producer : p.tileOf? shape.producer = some shape.producerTile
  consumer : p.tileOf? shape.consumer = some shape.consumerTile

/-- Reading a FIFO changes nothing and gives its shape. -/
theorem readFifo_ok (h : runOn (readFifo fifo) p = (.ok shape, q)) :
    p = q ∧ shape.ReadFrom p fifo := by
  rw [readFifo, get_bind_ok] at h
  dsimp only at h
  obtain ⟨name, hname, h⟩ := orFail_bind_ok.1 h
  obtain ⟨hdepth, h⟩ := ensure_bind_ok.1 h
  obtain ⟨size, hsize, h⟩ := orFail_bind_ok.1 h
  obtain ⟨producer, hproducer, h⟩ := orFail_bind_ok.1 h
  obtain ⟨consumer, hconsumer, h⟩ := orFail_bind_ok.1 h
  obtain ⟨producerTile, hproducerTile, h⟩ := orFail_bind_ok.1 h
  obtain ⟨consumerTile, hconsumerTile, h⟩ := orFail_bind_ok.1 h
  obtain ⟨rfl, rfl⟩ := pure_ok.1 h
  exact ⟨rfl, hname, rfl, of_decide_eq_true hdepth, hsize, hproducer, hconsumer, hproducerTile,
    hconsumerTile⟩

/-- The steps in which a FIFO is replaced, with the programs between them. -/
structure FifoRun (device fifo : OpId) (p : Program) where
  shape : FifoShape
  locks : LockPair
  buffered : Program
  produced : Program
  consumed : Program
  streamed : Program
  accessed : Program
  read : shape.ReadFrom p fifo
  slots : runOn ((List.range shape.depth.toNat).forM (insertSlot fifo shape)) p =
    (.ok (), buffered)
  producer : runOn (insertLock device fifo shape "prod_lock" shape.depth) buffered =
    (.ok locks.producer, produced)
  consumer : runOn (insertLock device fifo shape "cons_lock" 0) produced =
    (.ok locks.consumer, consumed)
  stream : runOn (insertStream device fifo shape) consumed = (.ok (), streamed)
  accesses : runOn ((streamed.walkIn device).forM fun id =>
    Action.update id (lowerAccess shape.name locks)) streamed = (.ok (), accessed)

/-- A successful run of `lowerObjectFifo`, taken apart. -/
theorem lowerObjectFifo_run (h : runOn (lowerObjectFifo device fifo) p = (.ok (), q)) :
    ∃ f : FifoRun device fifo p, q = f.accessed.erase fifo := by
  rw [lowerObjectFifo] at h
  obtain ⟨shape, r, hread, h⟩ := bind_ok.1 h
  obtain ⟨rfl, hshape⟩ := readFifo_ok hread
  obtain ⟨_, p₁, hslots, h⟩ := bind_ok.1 h
  obtain ⟨producer, p₂, hproducer, h⟩ := bind_ok.1 h
  obtain ⟨consumer, p₃, hconsumer, h⟩ := bind_ok.1 h
  obtain ⟨_, p₄, hstream, h⟩ := bind_ok.1 h
  rw [get_bind_ok] at h
  obtain ⟨_, p₅, haccesses, h⟩ := bind_ok.1 h
  rw [runOn_erase, Prod.mk.injEq] at h
  exact ⟨⟨shape, ⟨producer, consumer⟩, p₁, p₂, p₃, p₄, p₅, hshape, hslots, hproducer, hconsumer,
    hstream, haccesses⟩, h.2.symm⟩

/-- The accesses of a FIFO become uses of its locks under every rule that lets them. -/
theorem lowerAccesses_changes {rule : EditRule} {name : String} {locks : LockPair} (hp : p.Sound)
    (changes : ∀ r id, rule.changes r id (lowerAccess name locks (r.op id)))
    (h : runOn ((p.walkIn device).forM fun id => Action.update id (lowerAccess name locks)) p =
      (.ok (), q)) : p.Edits rule q :=
  forM_edits hp h fun id hid r s _ hr hrun => by
    rw [runOn_update, Prod.mk.injEq] at hrun
    obtain ⟨-, rfl⟩ := hrun
    exact .single (.change id _ (Nat.lt_of_lt_of_le (hp.lt_size_of_walkIn hid) (hr.size_le hp))
      (changes r id) (result_lowerAccess name locks _))

/-- The accesses of a FIFO are changed in place. -/
theorem lowerAccesses_edited {name : String} {locks : LockPair} (hp : p.Sound)
    (hdevice : device ∈ p.devices)
    (h : runOn ((p.walkIn device).forM fun id => Action.update id (lowerAccess name locks)) p =
      (.ok (), q)) :
    p.Edited (p.walkIn device) (fun id op => op = lowerAccess name locks (p.op id)) q ∧
      ∀ id ∈ p.walkIn device, q.op id = lowerAccess name locks (p.op id) := by
  refine forM_edited (hp.toWellFormed.nodup_walkIn (Program.mem_walk_of_mem_devices hdevice))
    (fun id hid => hp.lt_size_of_walkIn hid) h fun id _ r s _ _ hrun => ?_
  rw [runOn_update, Prod.mk.injEq] at hrun
  exact ⟨lowerAccess name locks, hrun.2.symm, rfl⟩

/-- The accesses of a FIFO, as its last edits leave them. -/
theorem lowerAccesses_ok {name : String} {locks : LockPair} (hp : p.Sound)
    (hdevice : device ∈ p.devices)
    (h : runOn ((p.walkIn device).forM fun id => Action.update id (lowerAccess name locks)) p =
      (.ok (), q)) : ∀ id ∈ p.walkIn device, q.op id = lowerAccess name locks (p.op id) :=
  (lowerAccesses_edited hp hdevice h).2

/-- The parts of a FIFO are created where the FIFO has a place for them. -/
theorem FifoRun.parts (f : FifoRun device fifo p) (h : Hosts p device fifo f.shape) :
    p.Edits .fifoParts f.buffered ∧ f.buffered.Edits .fifoParts f.produced ∧
      f.produced.Edits .fifoParts f.consumed ∧ f.consumed.Edits .fifoParts f.streamed := by
  have h₁ : p.Edits .fifoParts f.buffered :=
    forM_edits h.sound f.slots fun _ _ _ _ _ hr hrun => insertSlot_edits (h.edits hr) hrun
  have h₂ := insertLock_edits (h.edits h₁) f.producer
  have h₃ := insertLock_edits (h.edits (h₁.trans h₂)) f.consumer
  exact ⟨h₁, h₂, h₃, insertStream_edits (h.edits ((h₁.trans h₂).trans h₃)) f.stream⟩

/-- Lowering one FIFO creates its parts by the rules and erases the FIFO. -/
theorem lowerObjectFifo_ok (hp : p.Sound) (hvalues : p.definedValues.Nodup)
    (hdevice : device ∈ p.devices) (hlt : fifo < p.slots.size)
    (hname : (p.op fifo).is "aie.objectfifo" = true)
    (hbelow : fifo ∈ p.walk → fifo ∈ p.walkIn device)
    (h : runOn (lowerObjectFifo device fifo) p = (.ok (), q)) :
    ∃ r, p.Edits .fifos r ∧ q = r.erase fifo := by
  obtain ⟨f, rfl⟩ := lowerObjectFifo_run h
  have hhosts : Hosts p device fifo f.shape :=
    ⟨hp, hvalues, hdevice, hlt, hname, hbelow, f.read.producer, f.read.consumer⟩
  obtain ⟨h₁, h₂, h₃, h₄⟩ := f.parts hhosts
  have hparts := ((h₁.trans h₂).trans h₃).trans h₄
  exact ⟨f.accessed, hparts.fifos.trans (lowerAccesses_changes (hhosts.edits hparts).sound
    (fun _ _ => ⟨_, _, rfl⟩) f.accesses), rfl⟩

/-- The FIFOs of one device. -/
theorem lowerObjectFifos_device (hp : p.Sound) (hvalues : p.definedValues.Nodup)
    (hdevice : device ∈ p.devices) (h : runOn (lowerObjectFifos device) p = (.ok (), q)) :
    p.Edits .fifos q := by
  rw [lowerObjectFifos, get_bind_ok] at h
  exact (Stage.dissolves_device EditRule.fifos_sparesDevices EditRule.fifos_dissolves hp hdevice h
    fun _ _ _ hr hedits hlt hname hbelow hrun => lowerObjectFifo_ok hr (hedits.nodup hp hvalues)
      ((hedits.mem_devices EditRule.fifos_sparesDevices hp).2 hdevice) hlt hname hbelow hrun).1

/-- FIFOs are replaced by their parts, and none is left in any device. -/
theorem lowerObjectFifos_edits (hp : p.Sound) (hvalues : p.definedValues.Nodup)
    (h : runOn Stage.lowerObjectFifos.action p = (.ok (), q)) :
    p.Edits .fifos q ∧ ∀ device ∈ q.devices, ∀ id ∈ q.walkIn device,
      (q.op id).is "aie.objectfifo" = false :=
  Stage.dissolves EditRule.fifos_sparesDevices EditRule.fifos_dissolves hp h
    fun _ _ _ _ hr hedits hdevice hlt hname hbelow hrun =>
      lowerObjectFifo_ok hr (hedits.nodup hp hvalues) hdevice hlt hname hbelow hrun

end TileFlow
