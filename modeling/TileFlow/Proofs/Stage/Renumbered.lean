import TileFlow.Proofs.Stage.InStep
import TileFlow.Proofs.Stage.Orderly

/-!
# Stages on renumbered programs

What a stage does goes in step on a program and on a renumbering of it. Nothing depends on the
numbers of operations: names, identifiers, addresses and channels are chosen by the order of the
body, also where a stage comes upon operations that it has erased itself.

## Main results

* `inStep_forEach`, `inStep_forWalk`, `inStep_forRoots`: loops over operations.
* `inStep_assignLockIds`, `inStep_lowerObjectFifo`, `inStep_routeCircuitFlows`, …: the actions of
  the stages, those on cores apart.
-/

namespace TileFlow

open TileFlow.Action

variable {r : OpId → OpId} {n : Nat}

/-! ### Queries of the stages -/

namespace Program.Renumbers

variable {p q : Program}

/-- A renumbered operation has the same name in messages. -/
theorem labelOf (h : p.Renumbers r q) (id : OpId) : q.labelOf (r id) = p.labelOf id := by
  rw [Program.labelOf, Program.labelOf, h.op]

/-- A tile of a renumbered device has the same lock identifiers. -/
theorem lockIdsOn (h : p.Renumbers r q) (device : OpId) (tile : Tile) :
    q.lockIdsOn (r device) tile = p.lockIdsOn device tile := by
  rw [Program.lockIdsOn, Program.lockIdsOn, h.findIn, List.filter_map, h.filterMap_op]
  simp only [Function.comp_def, h.owningTile?]

/-- A FIFO of a renumbered device is found under its new number. -/
theorem fifo? (h : p.Renumbers r q) (device : OpId) (name : String) :
    q.fifo? (r device) name = (p.fifo? device name).map r := by
  rw [Program.fifo?, h.findIn, h.find?_op _ fun op => op.textAttr? "sym_name" == some name,
    Program.fifo?]

/-- A core of a renumbered device is found under its new number. -/
theorem coreOn? (h : p.Renumbers r q) (device : OpId) (tile : String) :
    q.coreOn? (r device) tile = (p.coreOn? device tile).map r := by
  rw [Program.coreOn?, h.findIn, h.find?_op _ fun op => op.operandValue? 0 == some tile,
    Program.coreOn?]

/-- As many channels are in use on a renumbered device. -/
theorem dmaChannelsInUse (h : p.Renumbers r q) (device : OpId) (tile : Tile) (e : StreamEnd) :
    q.dmaChannelsInUse (r device) tile e = p.dmaChannelsInUse device tile e := by
  have htile : q.tileOf? = p.tileOf? := funext h.tileOf?
  rw [Program.dmaChannelsInUse, Program.dmaChannelsInUse, h.findIn, htile, List.filter_map,
    List.length_map]
  simp only [Function.comp_def, h.op]

/-- A symbol of a renumbered device has the same allocation. -/
theorem shimAllocation? (h : p.Renumbers r q) (device : OpId) (symbol : String) :
    q.shimAllocation? (r device) symbol = p.shimAllocation? device symbol := by
  rw [Program.shimAllocation?, Program.shimAllocation?, h.findIn,
    h.find?_op _ fun op => op.operandSymbol? 0 == some symbol, Option.bind_map]
  simp only [Function.comp_def, h.op]

/-- A tile of a renumbered device is found under its new number. -/
theorem tileOp? (h : p.Renumbers r q) (device : OpId) (tile : Tile) :
    q.tileOp? (r device) tile = (p.tileOp? device tile).map r := by
  rw [Program.tileOp?, h.findIn, h.find?_op _ fun op => op.tile? == some tile, Program.tileOp?]

/-- A renumbered switchbox is on the same tile. -/
theorem switchboxTile? (h : p.Renumbers r q) (id : OpId) :
    q.switchboxTile? (r id) = p.switchboxTile? id := by
  rw [Program.switchboxTile?, h.op, funext h.tileOf?, Program.switchboxTile?]

/-- A switchbox of a renumbered device is found under its new number. -/
theorem switchboxOn? (h : p.Renumbers r q) (device : OpId) (tile : Tile) :
    q.switchboxOn? (r device) tile = (p.switchboxOn? device tile).map r := by
  rw [Program.switchboxOn?, Program.switchboxOn?, h.findIn, List.find?_map]
  simp only [Function.comp_def, h.switchboxTile?]

/-- A renumbered device has the same channels in use. -/
theorem channelsOf (h : p.Renumbers r q) (device : OpId) :
    q.channelsOf (r device) = p.channelsOf device := by
  rw [Program.channelsOf, Program.channelsOf, h.findIn, List.foldl_map]
  simp only [h.switchboxTile?, h.findIn, List.foldl_map, h.op]

/-- The operands of operations below a renumbered one are the same. -/
theorem operandsIn (h : p.Renumbers r q) (id : OpId) (name : String) :
    q.operandsIn (r id) name = p.operandsIn id name := by
  rw [Program.operandsIn, Program.operandsIn, h.findIn, List.map_map]
  simp only [Function.comp_def, h.op]

/-- A renumbered program calls the same symbols. -/
theorem calledSymbols (h : p.Renumbers r q) : q.calledSymbols = p.calledSymbols := by
  rw [Program.calledSymbols, Program.calledSymbols, h.walk, h.filter_op _ (·.isCall),
    h.filterMap_op _ (·.operandSymbol? 0)]

end Program.Renumbers

/-! ### Loops over operations -/

/-- A loop over the operations with a name below one. -/
theorem inStep_forEach {f g : OpId → Action Unit} (hf : ∀ b, InStep r (b + 1) (f b) (g (r b)) id)
    (a : OpId) (name : String) :
    InStep r n (do ((← get).findIn a name).forM f) (do ((← get).findIn (r a) name).forM g) id :=
  .get_bind fun p q h _ => by
    rw [h.findIn]
    exact .forM fun b hb =>
      (hf b).mono (h.tree.sound.lt_size_of_walkIn (List.mem_filter.1 hb).1)

/-- A loop over the operations of the body. -/
theorem inStep_forWalk {f g : OpId → Action Unit}
    (hf : ∀ b, InStep r (b + 1) (f b) (g (r b)) id) :
    InStep r n (do (← get).walk.forM f) (do (← get).walk.forM g) id :=
  .get_bind fun p q h _ => by
    rw [h.walk]
    exact .forM fun b hb => (hf b).mono (h.tree.sound.created b hb)

/-- A loop over the operations at the top. -/
theorem inStep_forRoots {f g : OpId → Action Unit}
    (hf : ∀ b, InStep r (b + 1) (f b) (g (r b)) id) :
    InStep r n (do (← get).body.roots.forM f) (do (← get).body.roots.forM g) id :=
  .get_bind fun p q h _ => by
    rw [h.roots]
    exact .forM fun b hb => (hf b).mono (h.tree.sound.created b (Program.mem_walk_of_mem_roots hb))

/-! ### Shape -/

/-- Renaming affine operations is in step with the same in the renumbered program. -/
theorem inStep_lowerAffine : InStep r n lowerAffine lowerAffine id := by
  have hrename : ∀ (l : List OpId) (p q : Program), p.Renumbers r q →
      (l.foldl (fun q id => q.modify id (·.renamed affineNames)) p).Renumbers r
        ((l.map r).foldl (fun q id => q.modify id (·.renamed affineNames)) q) ∧
      (l.foldl (fun q id => q.modify id (·.renamed affineNames)) p).slots.size = p.slots.size := by
    intro l
    induction l with
    | nil => exact fun p q h => ⟨h, rfl⟩
    | cons b l ih =>
        intro p q h
        have := ih _ _ (h.modify b (·.renamed affineNames))
        rwa [Program.size_modify] at this
  refine .bind (fun p q h _ => ?_) fun _ => .get_bind fun p q h _ => ?_
  · obtain ⟨hrenumbers, hsize⟩ := hrename p.walk p q h
    rw [InStepAt, runOn_modify, runOn_modify, h.walk]
    exact ⟨hrenumbers, Nat.le_of_eq hsize.symm, rfl⟩
  · rw [h.walk, h.find?_op _ (·.dialect == "affine")]
    cases p.walk.find? fun id => (p.op id).dialect == "affine" with
    | none => exact inStep_pure ()
    | some id =>
        simp only [Option.map_some, h.op]
        exact inStep_throw _

/-- Wrapping a program in a device is in step with the same in the renumbered program. -/
theorem inStep_wrapInDevice : InStep r n wrapInDevice wrapInDevice id := fun p q h _ => by
  refine .get_bind ?_
  rw [h.devices, List.isEmpty_map, h.roots]
  split
  · have hinsert : InStepAt r p q (modifyGet (·.insertAt none 0 defaultDevice) : Action OpId)
        (modifyGet (·.insertAt none 0 defaultDevice)) r :=
      ⟨h.insertAt none 0 defaultDevice, by
        rw [runOn_modifyGet, Program.size_insertAt]
        exact Nat.le_succ _, by
        rw [runOn_modifyGet, runOn_modifyGet, Program.fst_insertAt, Program.fst_insertAt, ← h.size]
        rfl⟩
    refine hinsert.bind_map fun device p' q' hrun h' _ => ?_
    rw [runOn_modifyGet, Prod.mk.injEq, Except.ok.injEq, Program.fst_insertAt] at hrun
    obtain ⟨rfl, rfl⟩ := hrun
    refine inStepAt_moveAll h' ?_ fun b hb => ⟨?_, ?_⟩
    · rw [Program.body_insertAt_none]
      exact Forest.mem_roots_insertAt.2 (.inl rfl)
    · exact Program.mem_walk_insertAt_none.2 (.inr (Program.mem_walk_of_mem_roots hb))
    · exact Nat.ne_of_lt (h.tree.sound.created b (Program.mem_walk_of_mem_roots hb))
  · exact inStep_pure () p q h (Nat.zero_le _)

/-- Lowering one structured operation is in step with the same in the renumbered program. -/
theorem inStep_lowerControl (b : OpId) : InStep r n (lowerControl b) (lowerControl (r b)) id := by
  refine .get_bind fun p q h _ => ?_
  simp only [h.op]
  split
  · exact .bind (inStep_ensure _ _) fun _ => inStep_update _ _
  · split
    · exact inStep_update _ _
    · exact inStep_pure _

/-- Lowering structured operations is in step with the same in the renumbered program. -/
theorem inStep_lowerStructured : InStep r n lowerStructured lowerStructured id :=
  .get_bind fun p q h _ => by
    rw [h.findAll]
    exact .bind (.forM fun b hb =>
        inStep_erase (h.tree.sound.created b (List.mem_filter.1 hb).1))
      fun _ => inStep_forWalk fun b => inStep_lowerControl b

/-! ### Locks and buffers -/

/-- Entering a lock in the ledger is in step with the same in the renumbered program. -/
theorem inStep_enterLock (model : DeviceModel) (l : LockLedger) (lock : OpId) :
    InStep r n (enterLock model l lock) (enterLock model l (r lock)) id := by
  refine .get_bind fun p q h _ => ?_
  simp only [h.owningTile?, h.labelOf, h.op]
  refine .bind (inStep_orFail _ _) fun tile => ?_
  split
  · exact inStep_pure _
  · exact .bind (inStep_ensure _ _) fun _ => .bind (inStep_ensure _ _) fun _ => inStep_pure _

/-- Choosing a lock identifier is in step with the same in the renumbered program. -/
theorem inStep_chooseLockId (model : DeviceModel) (l : LockLedger) (lock : OpId) :
    InStep r n (chooseLockId model l lock) (chooseLockId model l (r lock)) id := by
  refine .get_bind fun p q h _ => ?_
  simp only [h.owningTile?, h.labelOf, h.op]
  split
  · exact inStep_pure _
  · exact .bind (inStep_orFail _ _) fun tile => .bind (inStep_orFail _ _) fun _ =>
      .bind (inStep_update _ _) fun _ => inStep_pure _

/-- Assigning lock identifiers is in step with the same in the renumbered program. -/
theorem inStep_assignLockIds (device : OpId) :
    InStep r n (assignLockIds device) (assignLockIds (r device)) id :=
  .get_bind fun p q h _ => by
    simp only [h.modelOf, h.findIn]
    exact .bind (.foldlM (fun lock _ l => inStep_enterLock _ l lock) _) fun l =>
      .bind (.foldlM (fun lock _ l => inStep_chooseLockId _ l lock) _) fun _ => inStep_pure _

/-- Looking for a free lock identifier is in step with the same in the renumbered program. -/
theorem inStep_nextFreeLockId (device : OpId) (tile : Tile) :
    InStep r n (nextFreeLockId device tile) (nextFreeLockId (r device) tile) id :=
  .get_bind fun p q h _ => by
    simp only [h.modelOf, h.lockIdsOn]
    exact inStep_orFail _ _

/-- Localizing a lock use is in step with the same in the renumbered program. -/
theorem inStep_localizeUse (tile : Tile) (use : OpId) :
    InStep r n (localizeUse tile use) (localizeUse tile (r use)) id :=
  .get_bind fun p q h _ => by
    have hlock (value : String) : (q.definingOp? value).filter (fun id => (q.op id).is "aie.lock") =
        ((p.definingOp? value).filter fun id => (p.op id).is "aie.lock").map r := by
      rw [h.definingOp?, Option.filter_map]
      simp only [Function.comp_def, h.op]
    simp only [h.op, hlock]
    refine .bind (inStep_orFail _ _) fun value => .bind_map (inStep_orFail_map r _ _) fun lock => ?_
    simp only [h.op, h.owningTile?]
    exact .bind (inStep_orFail _ _) fun _ => .bind (inStep_orFail _ _) fun _ =>
      .bind (inStep_ensure _ _) fun _ => inStep_update _ _

/-- Localizing the lock uses of a core is in step with the same in the renumbered program. -/
theorem inStep_localizeCore (core : OpId) :
    InStep r n (localizeCore core) (localizeCore (r core)) id :=
  .get_bind fun p q h _ => by
    rw [h.owningTile?]
    exact .bind (inStep_orFail _ _) fun tile =>
      inStep_forEach (fun use => inStep_localizeUse tile use) core _

/-- Localizing locks is in step with the same in the renumbered program. -/
theorem inStep_localizeLocks (device : OpId) :
    InStep r n (localizeLocks device) (localizeLocks (r device)) id :=
  inStep_forEach (fun core => inStep_localizeCore core) device _

/-- The groups of buffers of a renumbering. -/
def TileBuffers.renumber (r : OpId → OpId) (g : TileBuffers) : TileBuffers :=
  { g with buffers := g.buffers.map r }

/-- A renumbered buffer is put in the same group. -/
theorem insertBuffer_renumber (tile : Tile) (buffer : OpId) (groups : List TileBuffers) :
    insertBuffer tile (r buffer) (groups.map (·.renumber r)) =
      (insertBuffer tile buffer groups).map (·.renumber r) := by
  induction groups with
  | nil => rfl
  | cons g rest ih =>
      rw [List.map_cons, insertBuffer, insertBuffer, ih]
      have htile : (g.renumber r).tile = g.tile := rfl
      rw [htile]
      split
      · simp [TileBuffers.renumber]
      · split <;> rfl

/-- Putting a buffer with those of its tile is in step with the same in the renumbered program. -/
theorem inStep_groupBuffer (groups : List TileBuffers) (buffer : OpId) :
    InStep r n (groupBuffer groups buffer)
      (groupBuffer (groups.map (·.renumber r)) (r buffer)) (List.map (·.renumber r)) :=
  .get_bind fun p q h _ => by
    rw [h.owningTile?, h.labelOf]
    refine .bind (inStep_orFail _ _) fun tile => ?_
    rw [insertBuffer_renumber]
    exact inStep_pure_map _ _

/-- Checking a buffer is in step with the same in the renumbered program. -/
theorem inStep_checkBuffer (next : Int) (buffer : OpId) :
    InStep r n (checkBuffer next buffer) (checkBuffer next (r buffer)) id := by
  refine .get_bind fun p q h _ => ?_
  simp only [h.op, h.labelOf]
  refine .bind (inStep_orFail _ _) fun size => .bind (inStep_ensure _ _) fun _ => ?_
  split
  · exact inStep_pure _
  · exact .bind (inStep_ensure _ _) fun _ => .bind (inStep_orFail _ _) fun _ => inStep_pure _

/-- Placing a buffer is in step with the same in the renumbered program. -/
theorem inStep_placeBuffer (tile : Tile) (limit next : Int) (buffer : OpId) :
    InStep r n (placeBuffer tile limit next buffer)
    (placeBuffer tile limit next (r buffer)) id := by
  refine .get_bind fun p q h _ => ?_
  simp only [h.op, h.labelOf]
  split
  · exact .bind (inStep_orFail _ _) fun _ => .bind (inStep_orFail _ _) fun _ =>
      .bind (inStep_ensure _ _) fun _ => .bind (inStep_update _ _) fun _ => inStep_pure _
  · exact inStep_pure _

/-- Laying out the buffers of a tile is in step with the same in the renumbered program. -/
theorem inStep_layOutTile (model : DeviceModel) (coreTiles : List Tile) (g : TileBuffers) :
    InStep r n (layOutTile model coreTiles g) (layOutTile model coreTiles (g.renumber r)) id :=
  .bind (.foldlM (fun buffer _ next => inStep_checkBuffer next buffer) _) fun _ =>
    .bind (.foldlM (fun buffer _ next => inStep_placeBuffer _ _ next buffer) _) fun _ =>
    inStep_pure _

/-- Assigning addresses is in step with the same in the renumbered program. -/
theorem inStep_assignBufferAddresses (device : OpId) :
    InStep r n (assignBufferAddresses device) (assignBufferAddresses (r device)) id := by
  refine .get_bind fun p q h _ => ?_
  have htiles : ((p.findIn device "aie.core").map r).filterMap q.owningTile? =
      (p.findIn device "aie.core").filterMap p.owningTile? := by
    rw [List.filterMap_map]
    exact congrArg (List.filterMap · _) (funext h.owningTile?)
  simp only [h.findIn, h.modelOf, htiles]
  refine .bind (.forM fun lock _ => ?_) fun _ => .bind_map
    (.foldlM_map (fun buffer _ groups => inStep_groupBuffer groups buffer) []) fun groups =>
    .forM fun g _ => inStep_layOutTile _ _ g
  rw [h.op, h.labelOf]
  exact inStep_ensure _ _

/-- Dropping memory spaces is in step with the same in the renumbered program. -/
theorem inStep_dropMemorySpaces (device : OpId) :
    InStep r n (dropMemorySpaces device) (dropMemorySpaces (r device)) id :=
  inStep_forEach (fun _ => inStep_update _ _) device _

/-! ### Transfers -/

/-- Lowering a transfer is in step with the same in the renumbered program. -/
theorem inStep_lowerTransfer (device transfer : OpId) :
    InStep r (transfer + 1) (lowerTransfer device transfer)
      (lowerTransfer (r device) (r transfer)) id := by
  rw [lowerTransfer, lowerTransfer]
  refine .get_bind fun p q h hlt => ?_
  simp only [h.op, h.shimAllocation?]
  refine .bind (inStep_orFail _ _) fun _ => .bind (inStep_orFail _ _) fun _ =>
    .bind (inStep_ensure _ _) fun _ => .bind (inStep_orFail _ _) fun _ =>
    .bind (inStep_orFail _ _) fun _ => ?_
  exact .bind_map (inStep_insertBefore _ _) fun _ => .bind_map (inStep_insertBefore _ _) fun _ =>
    .bind_map (inStep_insertBefore _ _) fun _ => inStep_erase hlt

/-! ### Object FIFOs -/

/-- Finding or creating the core on a tile is in step with the same in the renumbered program. -/
theorem inStep_coreFor (device : OpId) (tile : String) :
    InStep r n (coreFor device tile) (coreFor (r device) tile) r := by
  refine .get_bind fun p q h _ => ?_
  rw [h.coreOn?]
  cases p.coreOn? device tile with
  | some core => exact inStep_pure_map r core
  | none =>
      exact .bind_map (inStep_append _ _) fun core => .bind_map (inStep_append _ _) fun _ =>
        inStep_pure_map r core

/-- Appending an operation to a core is in step with the same in the renumbered program. -/
theorem inStep_appendToCore (core : OpId) (op : Operation) :
    InStep r n (appendToCore core op) (appendToCore (r core) op) r := by
  refine .get_bind fun p q h _ => ?_
  have hchildren := h.children (some core)
  rw [Option.map_some] at hchildren
  rw [hchildren, List.getLast?_map]
  cases (p.children (some core)).getLast? with
  | none => exact inStep_append _ _
  | some last =>
      simp only [Option.map_some, h.op]
      split
      · exact inStep_insertBefore _ _
      · exact inStep_append _ _

/-- Registering a process is in step with the same in the renumbered program. -/
theorem inStep_registerProcess (device registration : OpId) :
    InStep r (registration + 1) (registerProcess device registration)
      (registerProcess (r device) (r registration)) id :=
  .get_bind fun p q h hlt => by
    simp only [h.op, h.fifo?]
    refine .bind (inStep_orFail _ _) fun _ => .bind (inStep_orFail _ _) fun _ =>
      .bind_map (inStep_orFail_map r _ _) fun fifo => .bind (inStep_orFail _ _) fun _ => ?_
    rw [h.op]
    exact .bind (inStep_orFail _ _) fun _ => .bind_map (inStep_coreFor _ _) fun core =>
      .bind_map (inStep_appendToCore _ _) fun loop => .bind_map (inStep_append _ _) fun _ =>
      .bind_map (inStep_append _ _) fun _ => .bind_map (inStep_append _ _) fun _ =>
      inStep_erase hlt

/-- Reading what a FIFO asks for is in step with the same in the renumbered program. -/
theorem inStep_readFifo (fifo : OpId) : InStep r n (readFifo fifo) (readFifo (r fifo)) id :=
  .get_bind fun p q h _ => by
    simp only [h.op, h.tileOf?]
    exact .bind (inStep_orFail _ _) fun _ => .bind (inStep_ensure _ _) fun _ =>
      .bind (inStep_orFail _ _) fun _ => .bind (inStep_orFail _ _) fun _ =>
      .bind (inStep_orFail _ _) fun _ => .bind (inStep_orFail _ _) fun _ =>
      .bind (inStep_orFail _ _) fun _ => inStep_pure _

/-- Putting a buffer of a FIFO is in step with the same in the renumbered program. -/
theorem inStep_insertSlot (fifo : OpId) (shape : FifoShape) (i : Nat) :
    InStep r n (insertSlot fifo shape i) (insertSlot (r fifo) shape i) id :=
  .get_bind fun p q h _ => by
    rw [h.freshValue]
    exact .bind_map (inStep_insertBefore _ _) fun _ => inStep_pure _

/-- Putting a lock of a FIFO is in step with the same in the renumbered program. -/
theorem inStep_insertLock (device fifo : OpId) (shape : FifoShape) (suffix : String)
    (initial : Int) : InStep r n (insertLock device fifo shape suffix initial)
      (insertLock (r device) (r fifo) shape suffix initial) id := by
  rw [insertLock, insertLock]
  refine .bind (inStep_nextFreeLockId _ _) fun _ => .get_bind fun p q h _ => ?_
  rw [h.freshValue]
  exact .bind_map (inStep_insertBefore _ _) fun _ => inStep_pure _

/-- Recording the channel of a FIFO is in step with the same in the renumbered program. -/
theorem inStep_insertAllocation (device fifo : OpId) (name direction : String) (tile : Tile)
    (channel : Nat) : InStep r n (insertAllocation device fifo name direction tile channel)
      (insertAllocation (r device) (r fifo) name direction tile channel) id := by
  refine .get_bind fun p q h _ => ?_
  rw [h.modelOf]
  split
  · exact .bind_map (inStep_insertBefore _ _) fun _ => inStep_pure _
  · exact inStep_pure _

/-- Putting the stream of a FIFO is in step with the same in the renumbered program. -/
theorem inStep_insertStream (device fifo : OpId) (shape : FifoShape) :
    InStep r n (insertStream device fifo shape) (insertStream (r device) (r fifo) shape) id := by
  rw [insertStream, insertStream]
  split
  · refine .get_bind fun p q h _ => ?_
    simp only [h.dmaChannelsInUse]
    exact .bind_map (inStep_insertBefore _ _) fun _ =>
      .bind (inStep_insertAllocation _ _ _ _ _ _) fun _ => inStep_insertAllocation _ _ _ _ _ _
  · exact inStep_pure _

/-- Lowering a FIFO is in step with the same in the renumbered program. -/
theorem inStep_lowerObjectFifo (device fifo : OpId) :
    InStep r (fifo + 1) (lowerObjectFifo device fifo) (lowerObjectFifo (r device) (r fifo)) id := by
  rw [lowerObjectFifo, lowerObjectFifo]
  refine .bind (inStep_readFifo _) fun shape => .bind
    (.forM_same fun i _ => inStep_insertSlot _ _ i)
    fun _ => ?_
  refine .bind (inStep_insertLock _ _ _ _ _) fun _ => .bind (inStep_insertLock _ _ _ _ _)
    fun _ => .bind (inStep_insertStream _ _ _) fun _ => .get_bind fun p q h hlt => ?_
  rw [h.walkIn]
  exact .bind (.forM fun _ _ => inStep_update _ _) fun _ => inStep_erase hlt

/-! ### Broadcast and multicast -/

/-- Reading the operands of a source is in step with the same in the renumbered program. -/
theorem inStep_sourceOperands (b : OpId) :
    InStep r n (sourceOperands b) (sourceOperands (r b)) id :=
  .get_bind fun p q h _ => by
    simp only [h.op]
    exact .bind (inStep_ensure _ _) fun _ => inStep_pure _

/-- Putting the packet flow of a group is in step with the same in the renumbered program. -/
theorem inStep_insertPacketFlow (broadcast : OpId) (source : List Attribute) (group : OpId) :
    InStep r n (insertPacketFlow broadcast source group)
      (insertPacketFlow (r broadcast) source (r group)) id :=
  .get_bind fun p q h _ => by
    simp only [h.op, h.operandsIn]
    exact .bind (inStep_orFail _ _) fun _ => .bind_map (inStep_insertBefore _ _) fun _ =>
      .bind_map (inStep_append _ _) fun _ => .forM_same fun _ _ =>
      .bind_map (inStep_append _ _) fun _ => inStep_pure _

/-- Lowering a broadcast is in step with the same in the renumbered program. -/
theorem inStep_lowerBroadcast (broadcast : OpId) :
    InStep r (broadcast + 1) (lowerBroadcast broadcast) (lowerBroadcast (r broadcast)) id :=
  .bind (inStep_sourceOperands _) fun source => .get_bind fun p q h hlt => by
    rw [h.findIn]
    exact .bind (.forM fun group _ => inStep_insertPacketFlow broadcast source group)
      fun _ => inStep_erase hlt

/-- Lowering a multicast is in step with the same in the renumbered program. -/
theorem inStep_lowerMulticast (multicast : OpId) :
    InStep r (multicast + 1) (TileFlow.lowerMulticast multicast)
      (TileFlow.lowerMulticast (r multicast)) id :=
  .bind (inStep_sourceOperands _) fun source => .get_bind fun p q h hlt => by
    rw [h.operandsIn]
    exact .bind (.forM_same fun _ _ => .bind_map (inStep_insertBefore _ _) fun _ => inStep_pure _)
      fun _ => inStep_erase hlt

/-! ### Routing -/

/-- Reading an endpoint is in step with the same in the renumbered program. -/
theorem inStep_readEndpoint (op : Operation) (first : Nat) :
    InStep r n (readEndpoint op first) (readEndpoint op first) id :=
  .get_bind fun p q h _ => by
    simp only [h.tileOf?]
    exact .bind (inStep_orFail _ _) fun _ => .bind (inStep_orFail _ _) fun _ =>
      .bind (inStep_orFail _ _) fun _ => .bind (inStep_orFail _ _) fun _ => inStep_pure _

/-- Finding or creating the value of a tile is in step with the same in the renumbered program. -/
theorem inStep_tileValue (device : OpId) (tile : Tile) :
    InStep r n (tileValue device tile) (tileValue (r device) tile) id := by
  refine .get_bind fun p q h _ => ?_
  rw [h.tileOp?, Option.bind_map, h.freshValue]
  simp only [Function.comp_def, h.op]
  split
  · exact inStep_pure _
  · exact .bind_map (inStep_prepend _ _) fun _ => inStep_pure _

/-- Finding or creating the switchbox on a tile is in step with the same in the renumbered program.
-/
theorem inStep_switchboxFor (device : OpId) (tile : Tile) :
    InStep r n (switchboxFor device tile) (switchboxFor (r device) tile) r := by
  refine .get_bind fun p q h _ => ?_
  rw [h.switchboxOn?]
  cases p.switchboxOn? device tile with
  | some box => exact inStep_pure_map r box
  | none => exact .bind (inStep_tileValue _ _) fun _ => inStep_append _ _

/-- Adding a rule to a switchbox is in step with the same in the renumbered program. -/
theorem inStep_addOnce (box : OpId) (rule : Operation) :
    InStep r n (addOnce box rule) (addOnce (r box) rule) id := by
  refine .get_bind fun p q h _ => ?_
  have hchildren := h.children (some box)
  rw [Option.map_some] at hchildren
  simp only [hchildren, List.any_map, Function.comp_def, h.op]
  split
  · exact inStep_pure _
  · exact .bind_map (inStep_append _ _) fun _ => inStep_pure _

/-- Laying packet rules along a path is in step with the same in the renumbered program. -/
theorem inStep_layPackets (device : OpId) (packet : Int) (output input : Channel)
    (path : List Tile) : InStep r n (layPackets device packet output input path)
      (layPackets (r device) packet output input path) id := by
  induction path generalizing input with
  | nil => exact inStep_pure _
  | cons tile rest ih =>
      cases rest with
      | nil => exact .bind_map (inStep_switchboxFor _ _) fun _ => inStep_addOnce _ _
      | cons next rest =>
          exact .bind_map (inStep_switchboxFor _ _) fun _ =>
            .bind (inStep_addOnce _ _) fun _ => ih _

/-- Routing a packet flow is in step with the same in the renumbered program. -/
theorem inStep_routePacketFlow (device flow : OpId) :
    InStep r (flow + 1) (routePacketFlow device flow) (routePacketFlow (r device) (r flow)) id := by
  refine .get_bind fun p q h hlt => ?_
  simp only [h.op, h.modelOf, h.findIn]
  refine .bind (inStep_orFail _ _) fun packet => ?_
  rcases p.findIn flow "aie.packet_source" with _ | ⟨single, _ | ⟨_, _⟩⟩
  · exact inStep_throw_bind _ _ _
  · simp only [List.map_cons, List.map_nil, h.op]
    refine .bind (inStep_readEndpoint _ _) fun source => .bind (inStep_ensure _ _) fun _ =>
      .bind (.mapM fun d _ => ?_) fun _ => .bind (inStep_ensure _ _) fun _ =>
      .bind (.forM_same fun _ _ => .bind (inStep_ensure _ _) fun _ => inStep_layPackets _ _ _ _ _)
      fun _ => inStep_erase hlt
    rw [h.op]
    exact inStep_readEndpoint _ _
  · exact inStep_throw_bind _ _ _

/-- Laying connections along a path is in step with the same in the renumbered program. -/
theorem inStep_layCircuit (device : OpId) (output input : Channel) (path : List Tile)
    (l : ChannelLedger) : InStep r n (layCircuit device output l input path)
      (layCircuit (r device) output l input path) id := by
  induction path generalizing l input with
  | nil => exact inStep_pure _
  | cons tile rest ih =>
      cases rest with
      | nil =>
          exact .bind_map (inStep_switchboxFor _ _) fun _ => .bind_map (inStep_append _ _) fun _ =>
            inStep_pure _
      | cons next rest =>
          exact .bind (inStep_orFail _ _) fun _ => .bind_map (inStep_switchboxFor _ _) fun _ =>
            .bind_map (inStep_append _ _) fun _ => ih _ _

/-- Routing a flow is in step with the same in the renumbered program. -/
theorem inStep_routeCircuitFlow (device : OpId) (l : ChannelLedger) (flow : OpId) :
    InStep r (flow + 1) (routeCircuitFlow device l flow)
      (routeCircuitFlow (r device) l (r flow)) id :=
  .get_bind fun p q h hlt => by
    simp only [h.op, h.modelOf]
    exact .bind (inStep_readEndpoint _ _) fun _ => .bind (inStep_readEndpoint _ _) fun _ =>
      .bind (inStep_ensure _ _) fun _ => .bind (inStep_ensure _ _) fun _ =>
      .bind (inStep_layCircuit _ _ _ _ _) fun _ => .bind (inStep_erase hlt) fun _ => inStep_pure _

/-- Routing the flows of a device is in step with the same in the renumbered program. -/
theorem inStep_routeCircuitFlows (device : OpId) :
    InStep r n (TileFlow.routeCircuitFlows device) (TileFlow.routeCircuitFlows (r device)) id :=
  .get_bind fun p q h _ => by
    simp only [h.findIn, h.channelsOf]
    exact .bind (.foldlM (fun flow hflow l => (inStep_routeCircuitFlow device l flow).mono
      (h.tree.sound.lt_size_of_walkIn (List.mem_filter.1 hflow).1)) _) fun _ => inStep_pure _

/-! ### Cleaning up -/

/-- Erasing an operation unless it is erased is in step with the same in the renumbered program. -/
theorem inStep_eraseLive (b : OpId) : InStep r (b + 1) (eraseLive b) (eraseLive (r b)) id := by
  refine .get_bind fun p q h hlt => ?_
  rw [h.isLive]
  split
  · exact inStep_erase hlt
  · exact inStep_pure _

/-- Dropping runtime operations is in step with the same in the renumbered program. -/
theorem inStep_dropRuntime : InStep r n TileFlow.dropRuntime TileFlow.dropRuntime id := by
  refine inStep_forWalk fun b => .get_bind fun p q h hlt => ?_
  rw [h.op]
  split
  · exact (inStep_eraseLive b).mono hlt
  · exact inStep_pure _

/-- Dropping a terminator is in step with the same in the renumbered program. -/
theorem inStep_dropTerminator (b : OpId) : InStep r (b + 1)
    (do
      let op := (← get).op b
      if op.is "aie.end" || op.is "scf.yield" then eraseLive b)
    (do
      let op := (← get).op (r b)
      if op.is "aie.end" || op.is "scf.yield" then eraseLive (r b)) id := by
  refine .get_bind fun p q h hlt => ?_
  simp only [h.op]
  split
  · exact (inStep_eraseLive b).mono hlt
  · exact inStep_pure _

/-- Dropping terminators and unused declarations is in step with the same in the renumbered program.
-/
theorem inStep_dropUnused : InStep r n TileFlow.dropUnused TileFlow.dropUnused id := by
  refine .get_bind fun p q h _ => ?_
  rw [h.walk]
  refine .bind (.forM fun b hb => (inStep_dropTerminator b).mono (h.tree.sound.created b hb))
    fun _ => .get_bind fun p q h _ => ?_
  rw [h.calledSymbols]
  refine inStep_forRoots fun b => .get_bind fun p q h hlt => ?_
  rw [h.op]
  split
  · exact inStep_erase hlt
  · exact inStep_pure _

/-- Merging one operation is in step with the same in the renumbered program. -/
theorem inStep_mergeOne (seen : List Operation) (b : OpId) :
    InStep r (b + 1) (mergeOne seen b) (mergeOne seen (r b)) id := by
  refine .get_bind fun p q h hlt => ?_
  simp only [h.op]
  split
  · exact inStep_pure _
  · split
    · exact .bind (inStep_erase hlt) fun _ => inStep_pure _
    · exact inStep_pure _

/-- Merging equal declarations and globals is in step with the same in the renumbered program. -/
theorem inStep_mergeEqual : InStep r n TileFlow.mergeEqual TileFlow.mergeEqual id :=
  .get_bind fun p q h _ => by
    rw [h.roots]
    exact .bind (.foldlM (fun b hb seen => (inStep_mergeOne seen b).mono
      (h.tree.sound.created b (Program.mem_walk_of_mem_roots hb))) _) fun _ => inStep_pure _

/-- Giving a backend name is in step with the same in the renumbered program. -/
theorem inStep_lowerName (b : OpId) : InStep r n (lowerName b) (lowerName (r b)) id :=
  .get_bind fun p q h _ => by
    simp only [h.op]
    exact .bind (inStep_orFail _ _) fun _ => inStep_update _ _

/-- Ending a function with a return is in step with the same in the renumbered program. -/
theorem inStep_terminate (b : OpId) : InStep r n (terminate b) (terminate (r b)) id := by
  refine .get_bind fun p q h _ => ?_
  have hchildren := h.children (some b)
  rw [Option.map_some] at hchildren
  simp only [h.op, hchildren, List.getLast?_map]
  split
  · cases (p.children (some b)).getLast? with
    | none => exact .bind_map (inStep_append _ _) fun _ => inStep_pure _
    | some last =>
        simp only [Option.map_some, h.op]
        split
        · exact inStep_pure _
        · exact .bind_map (inStep_append _ _) fun _ => inStep_pure _
  · exact inStep_pure _

/-- Giving backend names is in step with the same in the renumbered program. -/
theorem inStep_lowerNames : InStep r n TileFlow.lowerNames TileFlow.lowerNames id :=
  .get_bind fun p q h _ => by
    rw [h.walk]
    exact .bind (.forM fun b _ => inStep_lowerName b) fun _ =>
      inStep_forRoots fun b => inStep_terminate b

end TileFlow
