import TileFlow.Device.Placement
import TileFlow.Routing.Path
import TileFlow.Stage.Action

/-!
# Endpoints and switchboxes

A stream starts and ends at a channel of a bundle on a tile. Its way is recorded in the
switchboxes of the tiles it crosses, which are created when they are first needed.

## Main definitions

* `Endpoint`: where a stream starts or ends.
* `readEndpoint`: an endpoint from three operands.
* `switchboxFor`: the switchbox of a tile.
* `connection`: an operation that joins an input of a switchbox to an output.
-/

namespace TileFlow

/-- A channel of a bundle. -/
structure Channel where
  bundle : String
  index : Int
  deriving DecidableEq, Repr

/-- A channel of a bundle on a tile (`Endpoint`). -/
structure Endpoint where
  tile : Tile
  channel : Channel
  deriving DecidableEq, Repr

/-- The endpoint that three operands of an operation describe (`endpoint`). -/
def readEndpoint (op : Operation) (first : Nat) : Action Endpoint := do
  let p ← get
  let value ← Action.orFail (op.operandValue? first) (.malformed op.name "a tile operand")
  let tile ← Action.orFail (p.tileOf? value) (.notATile value)
  let bundle ← Action.orFail (op.operandText? (first + 1)) (.malformed op.name "a port bundle")
  let index ← Action.orFail (op.operandInt? (first + 2)) (.malformed op.name "a channel")
  pure { tile, channel := { bundle, index } }

/-- Gives up on tiles outside the array (`check_inside`). -/
def checkInside (model : DeviceModel) (tile : Tile) : Action Unit :=
  Action.ensure (model.contains tile) (.outsideDevice tile model.name)

/-- The first tile operation of a device with given coordinates. -/
def Program.tileOp? (p : Program) (device : OpId) (tile : Tile) : Option OpId :=
  (p.findIn device "aie.tile").find? fun id => (p.op id).tile? == some tile

/-- The value of a tile, which is created at the top of the device if there is none (`tile_value`).
-/
def tileValue (device : OpId) (tile : Tile) : Action String := do
  let p ← get
  match (p.tileOp? device tile).bind fun id => (p.op id).result with
  | some value => pure value
  | none =>
    let value := p.freshValue s!"tile_{tile.column}_{tile.row}"
    let _ ← Action.prepend device
      { name := "aie.tile", result := some value, operands := [.int tile.column, .int tile.row] }
    pure value

/-- The tile that the first operand of an operation names. -/
def Program.switchboxTile? (p : Program) (id : OpId) : Option Tile :=
  ((p.op id).operandValue? 0).bind p.tileOf?

/-- The first switchbox of a device on a tile. -/
def Program.switchboxOn? (p : Program) (device : OpId) (tile : Tile) : Option OpId :=
  (p.findIn device "aie.switchbox").find? fun id => p.switchboxTile? id == some tile

/-- The switchbox on a tile, which is created at the end of the device if there is none
(`switchbox_for`). -/
def switchboxFor (device : OpId) (tile : Tile) : Action OpId := do
  match (← get).switchboxOn? device tile with
  | some id => pure id
  | none =>
    let value ← tileValue device tile
    Action.append device
      { name := "aie.switchbox", operands := [.value value], hasRegion := true }

/-- An operation that joins an input of a switchbox to an output (`connection`). -/
def connection (name : String) (input output : Channel) : Operation :=
  { name
    operands := [.ident input.bundle, .int input.index, .ident output.bundle, .int output.index] }

end TileFlow
