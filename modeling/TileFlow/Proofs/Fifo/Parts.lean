import Mathlib.Order.Bounds.Basic
import TileFlow.Proofs.Fifo.Allocation
import TileFlow.Proofs.Fifo.BoundedChannel
import TileFlow.Proofs.Memory.LockAssignment
import TileFlow.Proofs.Memory.LockIds

/-!
# Parts of object FIFOs

What a FIFO becomes: a buffer for each slot, a lock that counts free slots, a lock that counts
filled ones and, between different tiles, a stream with a record of its channel at each end that
faces the host. Each part is told by the program in which it is put: its value is made from its
symbol and new, its identifier is the smallest one that is free on the tile, and its channels come
after those in use.

Values are names. When a lock names as its place a value that nothing defines, and a part gets that
name, the lock is on the tile of the FIFO from then on, and its identifier is in use there.
Otherwise the two locks get the two smallest identifiers that are free at first.

## Main definitions

* `FifoParts`: what a FIFO becomes.
* `FifoShape.Tells`: what the program tells of a part.
* `FifoParts.ReadFrom`: the parts that a FIFO asks for.

## Main results

* `FifoParts.pair`: the identifiers of the two locks.
* `FifoRun.exists_parts`: the steps in which a FIFO is replaced put its parts before it.
-/

namespace TileFlow

open TileFlow.Action

variable {p q r : Program} {device fifo : OpId} {shape : FifoShape}

/-! ### Parts -/

/-- A buffer of a FIFO. -/
def slotPart (shape : FifoShape) (i : Nat) (value : String) : Operation where
  name := "aie.buffer"
  result := some value
  operands := [.value shape.consumer]
  attributes := .ofList [("size", .int shape.size), ("sym_name", .str s!"{shape.name}_buff_{i}")]

/-- What a FIFO becomes: what it asks for, the values of its buffers and locks, the identifiers of
the locks and the channels of its stream. -/
structure FifoParts where
  shape : FifoShape
  slots : List String
  locks : LockPair
  producerId : Int
  consumerId : Int
  source : Nat
  destination : Nat

instance : Inhabited FifoParts :=
  ⟨⟨⟨"", 0, 0, "", "", default, default⟩, [], ⟨"", ""⟩, 0, 0, 0, 0⟩⟩

namespace FifoParts

/-- The buffers, one for each slot. -/
def buffers (x : FifoParts) : List Operation :=
  List.zipWith (slotPart x.shape) (List.range x.shape.depth.toNat) x.slots

/-- The lock that counts free slots, all of them at first. -/
def producerLock (x : FifoParts) : Operation :=
  lockPart x.shape "prod_lock" x.locks.producer x.producerId x.shape.depth

/-- The lock that counts filled slots, none at first. -/
def consumerLock (x : FifoParts) : Operation :=
  lockPart x.shape "cons_lock" x.locks.consumer x.consumerId 0

/-- The record of a channel on a tile that faces the host. -/
def allocations (x : FifoParts) (direction : String) (tile : Tile) (channel : Nat) :
    List Operation :=
  if tile.row = 0 then [allocationPart x.shape.name ⟨direction, channel, tile.column⟩] else []

/-- The stream between different tiles. -/
def stream (x : FifoParts) : List Operation :=
  if x.shape.producerTile = x.shape.consumerTile then [] else
    streamPart x.shape.producer x.shape.consumer x.source x.destination ::
      (x.allocations "MM2S" x.shape.producerTile x.source ++
        x.allocations "S2MM" x.shape.consumerTile x.destination)

/-- All operations that stand in the place of the FIFO. -/
def operations (x : FifoParts) : List Operation :=
  x.buffers ++ x.producerLock :: x.consumerLock :: x.stream

/-- The values that are introduced. -/
def values (x : FifoParts) : List String :=
  x.slots ++ [x.locks.producer, x.locks.consumer]

end FifoParts

/-- The identifiers that no lock of a device on a tile has. -/
def Program.freeLockIds (p : Program) (device : OpId) (tile : Tile) : Set Int :=
  {n | 0 ≤ n ∧ n ∉ p.lockIdsOn device tile}

/-- Whether an operation that a FIFO becomes is as the program tells in which it is put: with a new
value made from its symbol, the smallest free identifier and the channels after those in use. -/
structure FifoShape.Tells (shape : FifoShape) (device : OpId) (p : Program) (op : Operation) :
    Prop where
  value : ∀ v, op.result = some v → ∃ symbol,
    op.textAttr? "sym_name" = some symbol ∧ v = p.freshValue symbol
  lock : op.is "aie.lock" = true → ∃ n, op.lockId? = some n ∧
    IsLeast (p.freeLockIds device shape.consumerTile) n
  stream : op.is "aie.flow" = true →
    op.operandInt? 2 = some (p.dmaChannelsInUse device shape.producerTile .source : Int) ∧
    op.operandInt? 5 = some (p.dmaChannelsInUse device shape.consumerTile .destination : Int)

/-- Whether no lock of a device names a value as its place. -/
def Program.NoLockNames (p : Program) (device : OpId) (value : String) : Prop :=
  ∀ lock ∈ p.findIn device "aie.lock", (p.op lock).operandValue? 0 ≠ some value

/-- Whether the parts of a FIFO are those that it asks for, as a program tells. The identifiers of
the locks are free one after the other; they are the two smallest that are free at first, unless a
lock names as its place a value that was not there yet. -/
structure FifoParts.ReadFrom (x : FifoParts) (p : Program) (device fifo : OpId) : Prop where
  shape : x.shape.ReadFrom p fifo
  slots : x.slots.length = x.shape.depth.toNat
  tells : Program.PutsEach (x.shape.Tells device) fifo p x.operations
  fresh : ∀ v ∈ x.values, v ∉ p.definedValues
  distinct : x.values.Nodup
  pair : (∀ v ∈ x.locks.producer :: x.slots, p.NoLockNames device v) →
    IsLeast (p.freeLockIds device x.shape.consumerTile) x.producerId ∧
      IsLeast (p.freeLockIds device x.shape.consumerTile \ {x.producerId}) x.consumerId

/-! ### The steps -/

/-- The next free identifier is the smallest one. -/
theorem nextFreeLockId_isLeast {tile : Tile} {n : Int}
    (h : runOn (nextFreeLockId device tile) p = (.ok n, q)) :
    IsLeast (p.freeLockIds device tile) n := by
  obtain ⟨-, hpos, -, hfree⟩ := nextFreeLockId_ok h
  refine ⟨⟨hpos, hfree⟩, fun m hm => ?_⟩
  rw [nextFreeLockId, get_bind_ok] at h
  dsimp only at h
  obtain ⟨hfirst, -⟩ := orFail_ok.1 h
  by_contra hlt
  obtain ⟨k, hk, heq⟩ :=
    List.mem_map.1 (LockLedger.firstFree?_least hfirst m hm.1 (not_le.1 hlt))
  obtain rfl : k = m := (Prod.mk.inj heq).2
  exact hm.2 hk

/-- The symbol of a slot. -/
theorem textAttr?_slotPart (shape : FifoShape) (i : Nat) (value : String) :
    (slotPart shape i value).textAttr? "sym_name" = some s!"{shape.name}_buff_{i}" := by
  rw [Operation.textAttr?, Operation.attr?, slotPart, Dictionary.get?_ofList]
  rfl

/-- A slot is told by the shape of the FIFO and a fresh value. -/
theorem slotPart_tells (shape : FifoShape) (i : Nat) (p : Program) :
    shape.Tells device p (slotPart shape i (p.freshValue s!"{shape.name}_buff_{i}")) where
  value _ hv := ⟨_, textAttr?_slotPart .., (Option.some.inj hv).symm⟩
  lock h := nomatch h
  stream h := nomatch h

/-- A lock is told by the shape of the FIFO, a fresh value and the least free identifier. -/
theorem lockPart_tells {suffix value : String} {n initial : Int}
    (hvalue : value = p.freshValue s!"{shape.name}_{suffix}")
    (h : IsLeast (p.freeLockIds device shape.consumerTile) n) :
    shape.Tells device p (lockPart shape suffix value n initial) where
  value _ hv := ⟨_, textAttr?_lockPart .., (Option.some.inj hv).symm.trans hvalue⟩
  lock _ := ⟨n, rfl, h⟩
  stream h := nomatch h

/-- An allocation is told by the shape of the FIFO. -/
theorem allocationPart_tells (name : String) (a : ShimAllocation) :
    shape.Tells device p (allocationPart name a) where
  value _ hv := nomatch hv
  lock h := nomatch h
  stream h := nomatch h

/-- The buffers for some slots are put before a FIFO. -/
theorem insertSlots_ok {l : List Nat}
    (h : runOn (l.forM (insertSlot fifo shape)) p = (.ok (), q)) :
    ∃ values : List String, values.length = l.length ∧
      q = p.putAll fifo (List.zipWith (slotPart shape) l values) ∧
      Program.PutsEach (shape.Tells device) fifo p (List.zipWith (slotPart shape) l values) := by
  induction l generalizing p with
  | nil => exact ⟨[], rfl, (forM_nil_ok.1 h).symm, trivial⟩
  | cons i l ih =>
      obtain ⟨r, hi, hrest⟩ := forM_cons_ok.1 h
      rw [insertSlot] at hi
      dsimp only at hi
      rw [get_bind_ok] at hi
      obtain ⟨_, s, hinsert, hpure⟩ := bind_ok.1 hi
      obtain ⟨-, rfl⟩ := pure_ok.1 hpure
      rw [runOn_insertBefore, Prod.mk.injEq] at hinsert
      obtain ⟨-, rfl⟩ := hinsert
      obtain ⟨values, hlength, hq, hputs⟩ := ih hrest
      refine ⟨p.freshValue s!"{shape.name}_buff_{i}" :: values, ?_, ?_, ?_⟩
      · rw [List.length_cons, hlength, List.length_cons]
      · rw [List.zipWith_cons_cons, Program.putAll_cons]
        exact hq
      · exact ⟨slotPart_tells shape i p, hputs⟩

/-- The record of a channel is put before a FIFO. -/
theorem insertAllocation_putAll {x : FifoParts} {direction : String} {tile : Tile} {channel : Nat}
    (h : runOn (insertAllocation device fifo x.shape.name direction tile channel) p = (.ok (), q)) :
    q = p.putAll fifo (x.allocations direction tile channel) ∧
      Program.PutsEach (x.shape.Tells device) fifo p (x.allocations direction tile channel) := by
  rw [FifoParts.allocations]
  rcases insertAllocation_ok h with ⟨hrow, rfl⟩ | ⟨hrow, rfl⟩
  · rw [if_pos hrow]
    exact ⟨rfl, allocationPart_tells _ _, trivial⟩
  · rw [if_neg hrow]
    exact ⟨rfl, trivial⟩

/-- The stream of a FIFO is put before it. -/
theorem insertStream_putAll {x : FifoParts}
    (hsource : x.source = p.dmaChannelsInUse device x.shape.producerTile .source)
    (hdestination : x.destination = p.dmaChannelsInUse device x.shape.consumerTile .destination)
    (h : runOn (insertStream device fifo x.shape) p = (.ok (), q)) :
    q = p.putAll fifo x.stream ∧ Program.PutsEach (x.shape.Tells device) fifo p x.stream := by
  rw [FifoParts.stream]
  rcases insertStream_ok h with ⟨htiles, rfl⟩ | ⟨_, _, r, htiles, rfl, rfl, hfirst, hsecond⟩
  · rw [if_pos htiles]
    exact ⟨rfl, trivial⟩
  · rw [← hsource, ← hdestination] at hfirst
    rw [← hdestination] at hsecond
    obtain ⟨rfl, hputs⟩ := insertAllocation_putAll hfirst
    obtain ⟨rfl, hputs'⟩ := insertAllocation_putAll hsecond
    rw [if_neg htiles, Program.putAll_cons, Program.putAll_append]
    refine ⟨rfl, ⟨fun _ hv => (nomatch hv), fun hlock => (nomatch hlock), fun _ => ?_⟩,
      Program.putsEach_append.2 ⟨hputs, hputs'⟩⟩
    rw [← hsource, ← hdestination]
    exact ⟨rfl, rfl⟩

/-! ### Free identifiers -/

/-- A place before an operation that is below a device, where values are defined once. -/
structure Program.Hosted (p : Program) (device x : OpId) : Prop where
  sound : p.Sound
  values : p.definedValues.Nodup
  root : device ∈ p.body.roots
  below : x ∈ p.walkIn device

namespace Program.Hosted

variable {x : OpId} {op : Operation} {ops : List Operation} {value : String} {tile : Tile}

/-- An operation with a new value is put there. -/
theorem insertBefore (h : p.Hosted device x) (fresh : ∀ v, op.result = some v →
    v ∉ p.definedValues) :
    (p.insertBefore x op).2.Hosted device x := by
  obtain ⟨parent, hnew, -, hwalk⟩ := insertBefore_created h.sound h.root h.below op
  exact ⟨hnew.sound, hnew.nodup h.sound h.values fresh, (hnew.roots device).2 (.inl h.root),
    (hwalk x).2 (.inl h.below)⟩

/-- What is no lock and has a value that no lock names leaves the free identifiers. -/
theorem freeLockIds_eq (h : p.Hosted device x) (hresult : op.result = some value)
    (hfresh : value ∉ p.definedValues) (hname : op.is "aie.buffer" = true)
    (hnames : p.NoLockNames device value) (tile : Tile) :
    (p.insertBefore x op).2.freeLockIds device tile = p.freeLockIds device tile := by
  obtain ⟨parent, hnew, -, hwalk⟩ := insertBefore_created h.sound h.root h.below op
  ext n
  have hiff : n ∈ (p.insertBefore x op).2.lockIdsOn device tile ↔ _ :=
    hnew.mem_lockIdsOn_iff h.sound h.values hwalk hresult hfresh
      (Operation.not_is_of_is hname (by decide)) hnames
  rw [Operation.not_is_of_is hname (by decide)] at hiff
  simp only [freeLockIds, Set.mem_ofPred_eq, hiff, Bool.false_eq_true, false_and, or_false]

/-- Inserting a buffer leaves the values that name no lock. -/
theorem noLockNames (h : p.Hosted device x) (hname : op.is "aie.buffer" = true)
    (hnames : p.NoLockNames device value) :
    (p.insertBefore x op).2.NoLockNames device value := fun lock hlock => by
  obtain ⟨parent, hnew, -, hwalk⟩ := insertBefore_created h.sound h.root h.below op
  obtain ⟨hin, his⟩ := List.mem_filter.1 hlock
  rcases (hwalk lock).1 hin with hin | rfl
  · have hheader := hnew.old lock (h.sound.lt_size_of_walkIn hin)
    rw [hheader.operandValue?]
    exact hnames lock (List.mem_filter.2 ⟨hin, hheader.is _ ▸ his⟩)
  · rw [hnew.header.is, Operation.not_is_of_is hname (by decide)] at his
    cases his

/-- Buffers with values that no lock names leave the free identifiers, and what values name. -/
theorem buffers {C : Program → Operation → Prop} (h : p.Hosted device x)
    (new : ∀ r op, C r op → ∀ v, op.result = some v → v ∉ r.definedValues)
    (hputs : PutsEach C x p ops)
    (hops : ∀ op ∈ ops, op.is "aie.buffer" = true ∧
      ∃ v, op.result = some v ∧ p.NoLockNames device v) (tile : Tile) :
    (p.putAll x ops).Hosted device x ∧
      (p.putAll x ops).freeLockIds device tile = p.freeLockIds device tile ∧
      (∀ v, p.NoLockNames device v → (p.putAll x ops).NoLockNames device v) ∧
      ∀ v t, p.tileOf? v = some t → (p.putAll x ops).tileOf? v = some t := by
  induction ops generalizing p with
  | nil => exact ⟨h, rfl, fun _ hv => hv, fun _ _ ht => ht⟩
  | cons op ops ih =>
      obtain ⟨⟨hname, v, hv, hnames⟩, hops⟩ := List.forall_mem_cons.1 hops
      have hfresh := new p op hputs.1
      have hfirst := h.insertBefore hfresh
      obtain ⟨parent, hnew, -, -⟩ := insertBefore_created h.sound h.root h.below op
      obtain ⟨hhosted, hfree, hkeep, htiles⟩ := ih hfirst hputs.2 fun op' hop' =>
        have ⟨hname', w, hw, hnames'⟩ := hops op' hop'
        ⟨hname', w, hw, h.noLockNames hname hnames'⟩
      exact ⟨hhosted, hfree.trans (h.freeLockIds_eq hv (hfresh v hv) hname hnames tile),
        fun w hw => hkeep w (h.noLockNames hname hw),
        fun w t ht => htiles w t ((hnew.resolves h.sound).tileOf? hfirst.values ht)⟩

/-- A lock with a value that no other one names takes its identifier. -/
theorem freeLockIds_lock (h : p.Hosted device x) (hfresh : value ∉ p.definedValues)
    (hnames : p.NoLockNames device value) (hconsumer : p.tileOf? shape.consumer = some tile)
    (suffix : String) (n initial : Int) :
    (p.insertBefore x (lockPart shape suffix value n initial)).2.freeLockIds device tile =
      p.freeLockIds device tile \ {n} := by
  obtain ⟨parent, hnew, -, hwalk⟩ := insertBefore_created h.sound h.root h.below
    (lockPart shape suffix value n initial)
  have hplace := placeOf?_of_tileOf? hconsumer
  have hne : shape.consumer ≠ value := by
    rintro rfl
    obtain ⟨id, hid, -⟩ := tileOf?_eq_some.1 hconsumer
    obtain ⟨hmem, hid⟩ := mem_walk_of_definingOp? hid
    exact hfresh (mem_definedValues.2 ⟨id, hmem, hid⟩)
  rw [← hnew.placeOf?_eq h.sound h.values rfl hfresh rfl hne] at hplace
  ext m
  have hiff : m ∈ (p.insertBefore x (lockPart shape suffix value n initial)).2.lockIdsOn device
      tile ↔ _ := hnew.mem_lockIdsOn_iff h.sound h.values hwalk rfl hfresh rfl hnames
  have hlock : (lockPart shape suffix value n initial).is "aie.lock" = true ∧
      ((lockPart shape suffix value n initial).operandValue? 0).bind
        (p.insertBefore x (lockPart shape suffix value n initial)).2.placeOf? = some tile ∧
      (lockPart shape suffix value n initial).lockId? = some m ↔ m = n :=
    ⟨fun ⟨_, _, hm⟩ => (Option.some.inj hm).symm, fun hm => ⟨rfl, hplace, congrArg some hm.symm⟩⟩
  simp only [freeLockIds, Set.mem_ofPred_eq, Set.mem_sdiff, Set.mem_singleton_iff, hiff,
    hlock, not_or,
    and_assoc]

end Program.Hosted

/-! ### One FIFO -/

/-- The value of a part that is told is not defined before. -/
theorem FifoShape.Tells.fresh {op : Operation} (h : shape.Tells device p op) :
    ∀ v, op.result = some v → v ∉ p.definedValues := fun v hv => by
  obtain ⟨symbol, -, rfl⟩ := h.value v hv
  exact p.freshValue_notMem symbol

namespace FifoParts

variable {x : FifoParts}

/-- The flow and the allocations define no value. -/
theorem results_stream (x : FifoParts) : x.stream.filterMap (·.result) = [] := by
  have hallocations : ∀ direction tile channel,
      (x.allocations direction tile channel).filterMap (·.result) = [] := fun _ _ _ => by
    rw [allocations]
    split <;> rfl
  rw [stream]
  split
  · rfl
  · rw [List.filterMap_cons_none rfl, List.filterMap_append, hallocations, hallocations]
    rfl

/-- The slots define the values of the buffers. -/
theorem results_buffers (hslots : x.slots.length = x.shape.depth.toNat) :
    x.buffers.filterMap (·.result) = x.slots := by
  have hresult : (fun op : Operation => op.result) ∘
      Function.uncurry (slotPart x.shape) = some ∘ Prod.snd := rfl
  have hle : x.slots.length ≤ (List.range x.shape.depth.toNat).length := by
    rw [List.length_range, hslots]
  rw [buffers, ← List.map_uncurry_zip_eq_zipWith, List.filterMap_map, hresult,
    List.filterMap_eq_map, List.map_snd_zip hle]

/-- The values that are introduced are those of the operations. -/
theorem results_operations (hslots : x.slots.length = x.shape.depth.toNat) :
    x.operations.filterMap (·.result) = x.values := by
  have hlocks : (x.producerLock :: x.consumerLock :: x.stream).filterMap (·.result) =
      x.locks.producer :: x.locks.consumer :: x.stream.filterMap (·.result) := rfl
  rw [operations, List.filterMap_append, results_buffers hslots, hlocks, results_stream, values]

/-- The buffers of a FIFO, each with the value of a slot. -/
theorem mem_buffers {op : Operation} (h : op ∈ x.buffers) :
    op.is "aie.buffer" = true ∧ ∃ v ∈ x.slots, op.result = some v := by
  rw [buffers, ← List.map_uncurry_zip_eq_zipWith] at h
  obtain ⟨⟨i, v⟩, hmem, rfl⟩ := List.mem_map.1 h
  exact ⟨rfl, v, (List.of_mem_zip hmem).2, rfl⟩

end FifoParts

/-- The identifiers of the locks are the two smallest free ones, if no lock names a value that comes
before the second one. -/
theorem FifoParts.pair {x : FifoParts} (h : p.Hosted device fifo)
    (htells : Program.PutsEach (x.shape.Tells device) fifo p x.operations)
    (hconsumer : p.tileOf? x.shape.consumer = some x.shape.consumerTile)
    (hnames : ∀ v ∈ x.locks.producer :: x.slots, p.NoLockNames device v) :
    IsLeast (p.freeLockIds device x.shape.consumerTile) x.producerId ∧
      IsLeast (p.freeLockIds device x.shape.consumerTile \ {x.producerId}) x.consumerId := by
  obtain ⟨hbuffers, hproducer, hsecond, -⟩ := Program.putsEach_append.1 htells
  obtain ⟨m, hm, hleast⟩ := hproducer.lock rfl
  obtain ⟨n, hn, hnext⟩ := hsecond.lock rfl
  obtain rfl : x.producerId = m := Option.some.inj hm
  obtain rfl : x.consumerId = n := Option.some.inj hn
  -- The buffers leave the free identifiers, and the first lock takes one of them.
  obtain ⟨hhosted, hfree, hkeep, htiles⟩ := h.buffers (fun _ _ hop => hop.fresh) hbuffers
    (fun op hop => by
      obtain ⟨hname, v, hv, hresult⟩ := mem_buffers hop
      exact ⟨hname, v, hresult, hnames v (List.mem_cons_of_mem _ hv)⟩) x.shape.consumerTile
  have htaken := hhosted.freeLockIds_lock (hproducer.fresh _ rfl)
    (hkeep _ (hnames x.locks.producer List.mem_cons_self)) (htiles _ _ hconsumer) "prod_lock"
    x.producerId x.shape.depth
  rw [hfree] at hleast htaken
  rw [producerLock, htaken] at hnext
  exact ⟨hleast, hnext⟩

/-- The steps in which a FIFO is replaced put its parts before it. -/
theorem FifoRun.exists_parts (f : FifoRun device fifo p) (h : p.Hosted device fifo) :
    ∃ x : FifoParts, x.shape = f.shape ∧ x.locks = f.locks ∧ x.ReadFrom p device fifo ∧
      f.streamed = p.putAll fifo x.operations := by
  obtain ⟨slots, hlength, hbuffered, hbuffers⟩ := insertSlots_ok f.slots
  obtain ⟨hproducer, m, hm, hproduced⟩ := insertLock_run f.producer
  obtain ⟨hconsumer, n, hn, hconsumed⟩ := insertLock_run f.consumer
  let x : FifoParts := ⟨f.shape, slots, f.locks, m, n,
    f.consumed.dmaChannelsInUse device f.shape.producerTile .source,
    f.consumed.dmaChannelsInUse device f.shape.consumerTile .destination⟩
  obtain ⟨hstreamed, hstream⟩ := insertStream_putAll (x := x) rfl rfl f.stream
  have hslots : x.slots.length = x.shape.depth.toNat := hlength.trans List.length_range
  have hfirst : x.shape.Tells device f.buffered x.producerLock :=
    lockPart_tells hproducer (nextFreeLockId_isLeast hm)
  have hsecond : x.shape.Tells device f.produced x.consumerLock :=
    lockPart_tells hconsumer (nextFreeLockId_isLeast hn)
  have htells : Program.PutsEach (x.shape.Tells device) fifo p x.operations := by
    rw [hconsumed] at hstream
    rw [hproduced] at hsecond hstream
    rw [hbuffered] at hfirst hsecond hstream
    exact Program.putsEach_append.2 ⟨hbuffers, hfirst, hsecond, hstream⟩
  obtain ⟨hfresh, hdistinct⟩ := htells.fresh h.sound h.root h.below fun _ _ hop => hop.fresh
  rw [FifoParts.results_operations hslots] at hfresh hdistinct
  refine ⟨x, rfl, rfl, ⟨f.read, hslots, htells, hfresh, hdistinct,
    FifoParts.pair h htells f.read.consumer⟩, ?_⟩
  rw [FifoParts.operations, Program.putAll_append, Program.putAll_cons, Program.putAll_cons,
    hstreamed, hconsumed, hproduced, hbuffered]
  rfl

/-- The parts of a FIFO by name. -/
theorem FifoParts.name_mem {x : FifoParts} {op : Operation} (h : op ∈ x.operations) :
    op.name ∈ fifoPartNames := by
  have hallocations : ∀ {direction tile channel},
      op ∈ x.allocations direction tile channel → op.name ∈ fifoPartNames := fun hop => by
    rw [FifoParts.allocations] at hop
    split at hop
    · obtain rfl := List.mem_singleton.1 hop
      simp [fifoPartNames, allocationPart, allocationName]
    · cases hop
  rw [FifoParts.operations, List.mem_append, List.mem_cons, List.mem_cons, FifoParts.stream] at h
  rcases h with h | rfl | rfl | h
  · simp [fifoPartNames, beq_iff_eq.1 (FifoParts.mem_buffers h).1]
  · simp [fifoPartNames, FifoParts.producerLock, lockPart]
  · simp [fifoPartNames, FifoParts.consumerLock, lockPart]
  · split at h
    · cases h
    · rw [List.mem_cons, List.mem_append] at h
      rcases h with rfl | h | h
      · simp [fifoPartNames, streamPart]
      · exact hallocations h
      · exact hallocations h

/-- No part of a FIFO is an access. -/
theorem FifoParts.not_accesses {x : FifoParts} {op : Operation} (h : op ∈ x.operations)
    {name : String} (access : Access) (side : Side) (n : Int) :
    ¬op.Accesses name access side n := by
  have hpart := FifoParts.name_mem h
  refine Operation.not_accesses (fun hname => ?_) access side n
  simp only [fifoPartNames, List.mem_cons, List.not_mem_nil, or_false] at hpart hname
  rcases hname with hname | hname <;> simp [hname] at hpart

end TileFlow
