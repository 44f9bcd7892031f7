import TileFlow.Device.Model
import TileFlow.Program.Basic

/-!
# Placement

Tiles are named by values. An operation sits on the tile that its first operand names, either
directly or through the operation that defines the operand.

## Main definitions

* `Program.tileOf?`: the tile that a value names.
* `Program.owningTile?`: the tile that an operation sits on.
* `Program.modelOf`: the family of a device.
-/

namespace TileFlow

/-- The coordinates that a tile operation gives (`tile_loc`). -/
def Operation.tile? (op : Operation) : Option Tile :=
  match op.operandInt? 0, op.operandInt? 1 with
  | some column, some row => some ⟨column, row⟩
  | _, _ => none

namespace Program

/-- The tile that a value names (`tile_loc`). -/
def tileOf? (p : Program) (value : String) : Option Tile :=
  match p.definingOp? value with
  | some id => if (p.op id).is "aie.tile" then (p.op id).tile? else none
  | none => none

/-- The tile that an operation sits on (`owning_tile`). -/
def owningTile? (p : Program) (id : OpId) : Option Tile :=
  match (p.op id).operandValue? 0 with
  | none => none
  | some value =>
    match p.definingOp? value with
    | none => none
    | some definition =>
      let op := p.op definition
      if op.is "aie.tile" then op.tile? else (op.operandValue? 0).bind p.tileOf?

/-- The family of a device (`of_device`). -/
def modelOf (p : Program) (device : OpId) : DeviceModel :=
  .lookup (((p.op device).operandText? 0).getD "")

end Program

end TileFlow
