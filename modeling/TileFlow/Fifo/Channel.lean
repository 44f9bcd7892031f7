import TileFlow.Fifo.Process
import TileFlow.Memory.Locks

/-!
# Channels of object FIFOs

An object FIFO becomes buffers, a pair of locks and, between different tiles, a stream. Its
accesses become uses of the two locks: the producer lock counts free slots and the consumer
lock counts filled ones.

## Main definitions

* `lowerObjectFifos`: buffers, locks and streams for the FIFOs.
* `Access.lowered`: which lock an access uses, and how.
-/

namespace TileFlow

/-- The two ends of a stream. -/
inductive StreamEnd where
  | source
  | destination
  deriving DecidableEq, Repr

/-- The first operand of a flow that describes an end. -/
def StreamEnd.firstOperand : StreamEnd → Nat
  | .source => 0
  | .destination => 3

/-- How many flows of a device use a DMA channel of a tile at an end (`dma_channels_in_use`). -/
def Program.dmaChannelsInUse (p : Program) (device : OpId) (tile : Tile) (e : StreamEnd) :
    Nat :=
  ((p.findIn device "aie.flow").filter fun id =>
    let op := p.op id
    op.operandText? (e.firstOperand + 1) == some "DMA" &&
      (op.operandValue? e.firstOperand).bind p.tileOf? == some tile).length

/-- What a FIFO asks for. -/
structure FifoShape where
  name : String
  depth : Int
  size : Int
  producer : String
  consumer : String
  producerTile : Tile
  consumerTile : Tile

/-- Reads and checks what a FIFO asks for (in `stateful_transform`). -/
def readFifo (fifo : OpId) : Action FifoShape := do
  let p ← get
  let op := p.op fifo
  let name ← Action.orFail (op.textAttr? "sym_name") .fifoWithoutName
  let depth := (op.intAttr? "depth").getD 2
  Action.ensure (1 ≤ depth) (.fifoDepth name depth)
  let size ← Action.orFail (op.intAttr? "size") (.fifoWithoutSize name)
  let producer ← Action.orFail (op.operandValue? 0) (.fifoWithoutTile name "producer")
  let consumer ← Action.orFail (op.operandValue? 1) (.fifoWithoutTile name "consumer")
  let producerTile ← Action.orFail (p.tileOf? producer) (.notATile producer)
  let consumerTile ← Action.orFail (p.tileOf? consumer) (.notATile consumer)
  pure { name, depth, size, producer, consumer, producerTile, consumerTile }

/-- Puts the `i`-th buffer of a FIFO on the consumer tile (in `stateful_transform`). -/
def insertSlot (fifo : OpId) (shape : FifoShape) (i : Nat) : Action Unit := do
  let symbol := s!"{shape.name}_buff_{i}"
  let result := (← get).freshValue symbol
  let _ ← Action.insertBefore fifo
    { name := "aie.buffer"
      result := some result
      operands := [.value shape.consumer]
      attributes := .ofList [("size", .int shape.size), ("sym_name", .str symbol)] }

/-- Puts a lock of a FIFO on the consumer tile, with the next free identifier there (in
`stateful_transform`). -/
def insertLock (device fifo : OpId) (shape : FifoShape) (suffix : String) (initial : Int) :
    Action String := do
  let symbol := s!"{shape.name}_{suffix}"
  let id ← nextFreeLockId device shape.consumerTile
  let result := (← get).freshValue symbol
  let _ ← Action.insertBefore fifo
    { name := "aie.lock"
      result := some result
      operands := [.value shape.consumer, .int id]
      attributes := .ofList [("init", .int initial), ("sym_name", .str symbol)] }
  pure result

/-- Records the channel of a FIFO on a tile that faces the host (in `stateful_transform`). -/
def insertAllocation (device fifo : OpId) (name direction : String) (tile : Tile)
    (channel : Nat) : Action Unit := do
  if ((← get).modelOf device).isShim tile.row then
    let _ ← Action.insertBefore fifo
      { name := "aie.shim_dma_allocation"
        operands := [.symbol name, .ident direction, .int channel, .int tile.column] }

/-- Puts the stream of a FIFO between different tiles (in `stateful_transform`). -/
def insertStream (device fifo : OpId) (shape : FifoShape) : Action Unit := do
  if shape.producerTile ≠ shape.consumerTile then
    let p ← get
    let source := p.dmaChannelsInUse device shape.producerTile .source
    let destination := p.dmaChannelsInUse device shape.consumerTile .destination
    let _ ← Action.insertBefore fifo
      { name := "aie.flow"
        operands := [.value shape.producer, .ident "DMA", .int source,
          .value shape.consumer, .ident "DMA", .int destination] }
    insertAllocation device fifo shape.name "MM2S" shape.producerTile source
    insertAllocation device fifo shape.name "S2MM" shape.consumerTile destination

/-- The two kinds of access to a FIFO. -/
inductive Access where
  | acquire
  | release
  deriving DecidableEq, Repr

/-- The access that an operation makes. -/
def Access.of? (op : Operation) : Option Access :=
  if op.is "aie.objectfifo.acquire" then some .acquire
  else if op.is "aie.objectfifo.release" then some .release
  else none

/-- The pair of locks of a FIFO: one counts free slots and the other filled ones. -/
structure LockPair where
  producer : String
  consumer : String

/-- The lock that an access uses, and the action on it: acquiring waits on the lock of the
own side, and releasing signals the lock of the other side. -/
def Access.lowered (locks : LockPair) : Access → Side → String × String
  | .acquire, .consume => (locks.consumer, "acquire_ge")
  | .acquire, .produce => (locks.producer, "acquire_ge")
  | .release, .consume => (locks.producer, "release")
  | .release, .produce => (locks.consumer, "release")

/-- The side that an access is made on: anything that is not the producing one consumes. -/
def Operation.accessSide (op : Operation) : Side :=
  if op.operandText? 1 = some "produce" then .produce else .consume

/-- An access of a FIFO as a use of one of its locks (in `stateful_transform`). -/
def lowerAccess (name : String) (locks : LockPair) (op : Operation) : Operation :=
  match Access.of? op with
  | none => op
  | some access =>
    if op.operandSymbol? 0 = some name then
      let (lock, action) := access.lowered locks op.accessSide
      { op with
        name := "aie.use_lock"
        operands := [.value lock, .ident action, .int ((op.operandInt? 2).getD 1)] }
    else op

/-- Replaces a FIFO by its buffers, locks and stream, and its accesses by lock uses (in
`stateful_transform`). -/
def lowerObjectFifo (device fifo : OpId) : Action Unit := do
  let shape ← readFifo fifo
  (List.range shape.depth.toNat).forM (insertSlot fifo shape)
  let producer ← insertLock device fifo shape "prod_lock" shape.depth
  let consumer ← insertLock device fifo shape "cons_lock" 0
  insertStream device fifo shape
  ((← get).walkIn device).forM fun id =>
    Action.update id (lowerAccess shape.name { producer, consumer })
  Action.erase fifo

/-- Replaces the FIFOs of a device (`stateful_transform`). -/
def lowerObjectFifos (device : OpId) : Action Unit := do
  ((← get).findIn device "aie.objectfifo").forM (lowerObjectFifo device)

end TileFlow
