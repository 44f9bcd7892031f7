import TileFlow.Device.Model

/-!
# Errors of the stages

The causes for which a stage gives up. A label names an operation by its result value, or by
its own name where it has no result.

## Main definitions

* `StageError`: why a stage gave up.
* `StageError.message`: the wording.
-/

namespace TileFlow

/-- Why a stage gave up (`PassResult`). -/
inductive StageError where
  | cannotLower (operation : String)
  | loopArity (operands : Nat)
  | lockUnplaced (label : String)
  | lockIdOutOfRange (id : Int) (tile : Tile)
  | lockIdUsedTwice (id : Int) (tile : Tile)
  | tooManyLocks (tile : Tile) (limit : Nat)
  | lockIdMissing (label : String)
  | bufferUnplaced (label : String)
  | bufferWithoutSize (label : String)
  | bufferSizeNotPositive (label : String) (size : Int)
  | bufferAddressNegative (label : String) (address : Int)
  | bufferAddressOverflow (label : String)
  | memoryExceeded (tile : Tile) (needed available : Int)
  | coreUnplaced
  | useWithoutLock
  | notALock (value : String)
  | lockWithoutId (value : String)
  | usedLockUnplaced (value : String)
  | lockNotAccessible (value : String) (lock core : Tile)
  | registrationWithoutFifo
  | registrationWithoutFunction
  | unknownFifo (fifo : String)
  | unknownSide (side : String)
  | fifoWithoutTile (fifo side : String)
  | fifoWithoutName
  | fifoDepth (fifo : String) (depth : Int)
  | fifoWithoutSize (fifo : String)
  | notATile (value : String)
  | noQueue (direction : String) (channel : Int)
  | transferWithoutSymbol
  | noAllocation (symbol : String)
  | descriptorOutOfRange (id : Int) (limit : Int)
  | transferWithoutLength (symbol : String)
  | malformed (operation part : String)
  | noFreeChannel (direction : String) (tile : Tile)
  | outsideDevice (tile : Tile) (device : String)
  | packetFlowWithoutId
  | packetSourceCount (id : Int)
  | packetWithoutDestination (id : Int)
  | fanOutArity (operation : String)
  | packetGroupWithoutId
  | unknownLockAction (action : String)
  | noStandardLowering (core : Tile) (value : String)
  | cannotLegalize (operation : String)
  | other (message : String)
  deriving DecidableEq, Repr

/-- The wording of a cause. -/
def StageError.message : StageError → String
  | .cannotLower operation => s!"cannot lower '{operation}'"
  | .loopArity operands => s!"scf.for expects (lower, upper, step), got {operands} operands"
  | .lockUnplaced label => s!"lock {label} is not placed on a tile"
  | .lockIdOutOfRange id tile => s!"lock ID {id} out of range on tile {tile.render}"
  | .lockIdUsedTwice id tile => s!"lock ID {id} used twice on tile {tile.render}"
  | .tooManyLocks tile limit => s!"tile {tile.render} has more than {limit} locks"
  | .lockIdMissing label =>
    s!"lock {label} has no ID; lock IDs must be assigned before buffer addresses"
  | .bufferUnplaced label => s!"buffer {label} is not placed on a tile"
  | .bufferWithoutSize label => s!"buffer {label} has no size"
  | .bufferSizeNotPositive label size => s!"buffer {label} has non-positive size {size}"
  | .bufferAddressNegative label address => s!"buffer {label} has negative address {address}"
  | .bufferAddressOverflow label => s!"buffer {label} address overflows"
  | .memoryExceeded tile needed available =>
    s!"allocated buffers exceeded available memory on tile {tile.render}: " ++
      s!"need {needed} bytes, have {available}"
  | .coreUnplaced => "core is not placed on a tile"
  | .useWithoutLock => "aie.use_lock without a lock operand"
  | .notALock value => s!"%{value} is not a lock"
  | .lockWithoutId value => s!"lock %{value} has no ID"
  | .usedLockUnplaced value => s!"lock %{value} is not placed on a tile"
  | .lockNotAccessible value lock core =>
    s!"lock %{value} on tile {lock.render} is not accessible from core {core.render}"
  | .registrationWithoutFifo => "register_process expects an object FIFO symbol"
  | .registrationWithoutFunction => "register_process expects a function symbol"
  | .unknownFifo fifo => s!"unknown object FIFO @{fifo}"
  | .unknownSide side => s!"unknown object FIFO port '{side}'"
  | .fifoWithoutTile fifo side => s!"object FIFO @{fifo} has no {side} tile"
  | .fifoWithoutName => "object FIFO without sym_name"
  | .fifoDepth fifo depth => s!"object FIFO @{fifo} has depth {depth}"
  | .fifoWithoutSize fifo => s!"object FIFO @{fifo} has no size"
  | .notATile value => s!"%{value} is not a tile"
  | .noQueue direction channel => s!"no shim DMA queue for {direction} channel {channel}"
  | .transferWithoutSymbol => "aiex.ipu.dma_memcpy_nd expects an object FIFO or shim symbol"
  | .noAllocation symbol => s!"no shim DMA allocation for @{symbol}"
  | .descriptorOutOfRange id limit =>
    s!"buffer descriptor {id} out of range, shim tiles have {limit}"
  | .transferWithoutLength symbol => s!"transfer on @{symbol} has no length"
  | .malformed operation part => s!"malformed {operation}: expected {part}"
  | .noFreeChannel direction tile => s!"no free {direction} channel on tile {tile.render}"
  | .outsideDevice tile device => s!"tile {tile.render} is outside device {device}"
  | .packetFlowWithoutId => "aie.packet_flow expects a packet ID"
  | .packetSourceCount id => s!"packet flow {id} needs exactly one source"
  | .packetWithoutDestination id => s!"packet flow {id} has no destination"
  | .fanOutArity operation => s!"{operation} expects (%tile, bundle, channel)"
  | .packetGroupWithoutId => "aiex.bp_id expects a packet ID"
  | .unknownLockAction action => s!"unknown lock action '{action}'"
  | .noStandardLowering core value =>
    s!"core on tile {core.render} uses %{value} which has no standard lowering"
  | .cannotLegalize operation => s!"failed to legalize operation '{operation}'"
  | .other message => message

end TileFlow
