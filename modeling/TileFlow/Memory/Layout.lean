import TileFlow.Integer
import TileFlow.Memory.Locks

/-!
# Buffers

Buffers are laid out in the data memory of their tile: those with an address stay where they
are, and the others follow behind all of them, in order and aligned, above the stack if the
tile has a core.

## Main definitions

* `assignBufferAddresses`: an address for every buffer.
* `dropMemorySpaces`: buffers without their memory space.
-/

namespace TileFlow

/-- The alignment of assigned addresses (`BUFFER_ALIGNMENT`). -/
def bufferAlignment : Int := 16

/-- The first aligned address that is not below another, if it is in range (in
`assign_buffer_addresses`). -/
def alignUp? (address : Int) : Option Int :=
  (Integer.checkedAdd address (bufferAlignment - 1)).map fun n =>
    Int.tdiv n bufferAlignment * bufferAlignment

/-- The buffers of a tile, in program order. -/
structure TileBuffers where
  tile : Tile
  buffers : List OpId

/-- The order of tiles by column and then by row. -/
def Tile.before (a b : Tile) : Bool :=
  a.column < b.column || (a.column == b.column && a.row < b.row)

/-- Buffers by tile with one more, in the order of the tiles. -/
def insertBuffer (tile : Tile) (buffer : OpId) : List TileBuffers → List TileBuffers
  | [] => [⟨tile, [buffer]⟩]
  | g :: rest =>
    if tile = g.tile then { g with buffers := g.buffers ++ [buffer] } :: rest
    else if tile.before g.tile then ⟨tile, [buffer]⟩ :: g :: rest
    else g :: insertBuffer tile buffer rest

/-- Puts one buffer with those of its tile (in `assign_buffer_addresses`). -/
def groupBuffer (groups : List TileBuffers) (buffer : OpId) : Action (List TileBuffers) := do
  let p ← get
  let tile ← Action.orFail (p.owningTile? buffer) (.bufferUnplaced (p.labelOf buffer))
  pure (insertBuffer tile buffer groups)

/-- Checks the size and address that a buffer comes with (in `assign_buffer_addresses`). The free
memory starts at `next` and lies behind every buffer that has an address. -/
def checkBuffer (next : Int) (buffer : OpId) : Action Int := do
  let p ← get
  let label := p.labelOf buffer
  let size ← Action.orFail ((p.op buffer).intAttr? "size") (.bufferWithoutSize label)
  Action.ensure (0 < size) (.bufferSizeNotPositive label size)
  match (p.op buffer).intAttr? "address" with
  | none => pure next
  | some address =>
    Action.ensure (0 ≤ address) (.bufferAddressNegative label address)
    let stop ← Action.orFail (Integer.checkedAdd address size) (.bufferAddressOverflow label)
    pure (max next stop)

/-- Places a buffer without an address at the first aligned place from `next` on (in
`assign_buffer_addresses`). -/
def placeBuffer (tile : Tile) (limit next : Int) (buffer : OpId) : Action Int := do
  let p ← get
  match (p.op buffer).intAttr? "address", (p.op buffer).intAttr? "size" with
  | none, some size =>
    let overflow := StageError.bufferAddressOverflow (p.labelOf buffer)
    let address ← Action.orFail (alignUp? next) overflow
    let stop ← Action.orFail (Integer.checkedAdd address size) overflow
    Action.ensure (stop ≤ limit) (.memoryExceeded tile stop limit)
    Action.update buffer (·.withAttr "address" (.int address))
    pure stop
  | _, _ => pure next

/-- Lays out the buffers of one tile (in `assign_buffer_addresses`). -/
def layOutTile (model : DeviceModel) (coreTiles : List Tile) (g : TileBuffers) :
    Action Unit := do
  let start := if g.tile ∈ coreTiles then model.stackSize else 0
  let next ← g.buffers.foldlM checkBuffer start
  let _ ← g.buffers.foldlM (placeBuffer g.tile (model.dataMemorySize g.tile.row)) next

/-- Gives every buffer of a device an address (`assign_buffer_addresses`). The locks must have their
identifiers by then. -/
def assignBufferAddresses (device : OpId) : Action Unit := do
  let p ← get
  (p.findIn device "aie.lock").forM fun lock =>
    Action.ensure (p.op lock).lockId?.isSome (.lockIdMissing (p.labelOf lock))
  let coreTiles := (p.findIn device "aie.core").filterMap p.owningTile?
  let groups ← (p.findIn device "aie.buffer").foldlM groupBuffer []
  groups.forM (layOutTile (p.modelOf device) coreTiles)

/-- Drops the memory space of every buffer of a device (`normalize_address_spaces`). -/
def dropMemorySpaces (device : OpId) : Action Unit := do
  ((← get).findIn device "aie.buffer").forM fun buffer =>
    Action.update buffer fun op => { op with attributes := op.attributes.erase "memory_space" }

end TileFlow
