import TileFlow.Stage.Action

/-!
# Transfers

A transfer between the host and the array is replaced by three instructions: the buffer
descriptor of a shim tile is written, its address is patched with that of a host buffer, and
the descriptor is put into the queue of a channel.

## Main definitions

* `queueAddress?`: the register that starts a channel.
* `lowerTransfers`: instructions in place of transfers.
-/

namespace TileFlow

/-- The number of buffer descriptors of a shim tile (`SHIM_BD_COUNT`). -/
def descriptorCount : Int := 16

/-- The address register of the first buffer descriptor (`BD_BASE_ADDRESS`). -/
def descriptorBase : Int := 0x1D004

/-- The distance between the registers of two buffer descriptors (`BD_STRIDE`). -/
def descriptorStride : Int := 0x20

/-- The register that starts a channel of a shim tile (`queue_address`). -/
def queueAddress? (direction : String) (channel : Int) : Option Int :=
  match direction, channel with
  | "MM2S", 0 => some 0x1D214
  | "MM2S", 1 => some 0x1D21C
  | "S2MM", 0 => some 0x1D204
  | "S2MM", 1 => some 0x1D20C
  | _, _ => none

/-- The channel of a shim tile that serves a symbol (`ShimAllocation`). -/
structure ShimAllocation where
  direction : String
  channel : Int
  column : Int
  deriving DecidableEq, Repr

/-- The allocation that an operation describes. -/
def Operation.allocation? (op : Operation) : Option ShimAllocation :=
  match op.operandText? 1, op.operandInt? 2, op.operandInt? 3 with
  | some direction, some channel, some column => some { direction, channel, column }
  | _, _, _ => none

/-- The first allocation of a device for a symbol (`shim_allocation`). -/
def Program.shimAllocation? (p : Program) (device : OpId) (symbol : String) :
    Option ShimAllocation :=
  ((p.findIn device "aie.shim_dma_allocation").find? fun id =>
    (p.op id).operandSymbol? 0 == some symbol).bind fun id => (p.op id).allocation?

/-- The write of a buffer descriptor (in `dma_to_ipu`). -/
def writeDescriptor (column id length offset argument : Int) : Operation :=
  { name := "aiex.ipu.writebd_shimtile"
    operands := [.int column, .int id]
    attributes := .ofList [("buffer_length", .int length), ("buffer_offset", .int offset),
      ("arg_idx", .int argument)] }

/-- The patch of the address of a buffer descriptor (in `dma_to_ipu`). -/
def patchAddress (id argument offset : Int) : Operation :=
  { name := "aiex.ipu.address_patch"
    operands := [.int (descriptorBase + id * descriptorStride), .int argument, .int offset] }

/-- The write of a register (in `dma_to_ipu`). -/
def writeRegister (column address value : Int) : Operation :=
  { name := "aiex.ipu.write32"
    operands := [.int column, .int 0]
    attributes := .ofList [("address", .int address), ("value", .int value)] }

/-- Replaces a transfer by instructions (in `dma_to_ipu`). -/
def lowerTransfer (device transfer : OpId) : Action Unit := do
  let p ← get
  let op := p.op transfer
  let symbol ← Action.orFail (op.operandSymbol? 0) .transferWithoutSymbol
  let allocation ← Action.orFail (p.shimAllocation? device symbol) (.noAllocation symbol)
  let id := (op.intAttr? "id").getD 0
  Action.ensure (0 ≤ id && id < descriptorCount) (.descriptorOutOfRange id descriptorCount)
  let length ← Action.orFail (op.intAttr? "length") (.transferWithoutLength symbol)
  let offset := (op.intAttr? "offset").getD 0
  let argument := (op.intAttr? "arg_idx").getD 0
  let queue ← Action.orFail (queueAddress? allocation.direction allocation.channel)
    (.noQueue allocation.direction allocation.channel)
  let _ ← Action.insertBefore transfer
    (writeDescriptor allocation.column id length offset argument)
  let _ ← Action.insertBefore transfer (patchAddress id argument offset)
  let _ ← Action.insertBefore transfer (writeRegister allocation.column queue id)
  Action.erase transfer

/-- Replaces the transfers of a device by instructions (`dma_to_ipu`). -/
def lowerTransfers (device : OpId) : Action Unit := do
  ((← get).findIn device "aiex.ipu.dma_memcpy_nd").forM (lowerTransfer device)

end TileFlow
