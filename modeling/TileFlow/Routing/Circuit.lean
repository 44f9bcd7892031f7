import TileFlow.Routing.Switchbox

/-!
# Circuit routing

A flow becomes one connection in each switchbox on the path between its endpoints. Every step
to a neighbouring tile takes the next outgoing channel in its direction, behind all channels
in use there.

## Main definitions

* `ChannelLedger`: the next free outgoing channel by tile and direction.
* `Program.channelsOf`: the ledger of the connections of a device.
* `routeCircuitFlows`: connections in place of flows.
-/

namespace TileFlow

/-- The next free outgoing channel of each tile in each direction (`ChannelMap`). -/
structure ChannelLedger where
  next : Tile → Direction → Int

namespace ChannelLedger

/-- The ledger of an array without connections. -/
def empty : ChannelLedger := ⟨fun _ _ => 0⟩

/-- The ledger with the next free channel of a tile in a direction set. -/
def set (l : ChannelLedger) (tile : Tile) (direction : Direction) (n : Int) : ChannelLedger :=
  ⟨fun t d => if t = tile ∧ d = direction then n else l.next t d⟩

/-- The ledger with a channel in use (`from_device`). Behind the greatest integer comes the least,
so that a channel with that number leaves the ledger as it is. -/
def occupy (l : ChannelLedger) (tile : Tile) (direction : Direction) (channel : Int) :
    ChannelLedger :=
  l.set tile direction (max (l.next tile direction) (Integer.following channel))

/-- The next free channel of a tile in a direction, if the capacity is not exhausted, and the ledger
with it in use (`allocate`). -/
def allocate? (l : ChannelLedger) (tile : Tile) (direction : Direction) :
    Option (Int × ChannelLedger) :=
  let n := l.next tile direction
  if direction.capacity ≤ n then none else some (n, l.set tile direction (n + 1))

end ChannelLedger

/-- The outgoing channel that a connection uses, if it leads to a neighbouring tile. -/
def Operation.outgoing? (op : Operation) : Option (Direction × Int) :=
  match (op.operandText? 2).bind Direction.ofName?, op.operandInt? 3 with
  | some direction, some channel => some (direction, channel)
  | _, _ => none

/-- The ledger of the connections in the switchboxes of a device (`from_device`). -/
def Program.channelsOf (p : Program) (device : OpId) : ChannelLedger :=
  (p.findIn device "aie.switchbox").foldl (fun l box =>
    match p.switchboxTile? box with
    | none => l
    | some tile =>
      (p.findIn box "aie.connect").foldl (fun l id =>
        match (p.op id).outgoing? with
        | some (direction, channel) => l.occupy tile direction channel
        | none => l) l) .empty

/-- Lays the connections of a stream that enters the first tile of a path at `input` and leaves the
last one at `output` (in `route_circuit_flows`). -/
def layCircuit (device : OpId) (output : Channel) :
    ChannelLedger → Channel → List Tile → Action ChannelLedger
  | l, _, [] => pure l
  | l, input, [tile] => do
    let box ← switchboxFor device tile
    let _ ← Action.append box (connection "aie.connect" input output)
    pure l
  | l, input, tile :: next :: rest => do
    let direction := Direction.between tile next
    let (channel, l) ← Action.orFail (l.allocate? tile direction)
      (.noFreeChannel direction.name tile)
    let box ← switchboxFor device tile
    let _ ← Action.append box (connection "aie.connect" input ⟨direction.name, channel⟩)
    layCircuit device output l ⟨direction.opposite.name, channel⟩ (next :: rest)

/-- Replaces a flow by connections (in `route_circuit_flows`). -/
def routeCircuitFlow (device : OpId) (l : ChannelLedger) (flow : OpId) :
    Action ChannelLedger := do
  let p ← get
  let model := p.modelOf device
  let source ← readEndpoint (p.op flow) 0
  let destination ← readEndpoint (p.op flow) 3
  checkInside model source.tile
  checkInside model destination.tile
  let l ← layCircuit device destination.channel l source.channel
    (source.tile.pathTo destination.tile)
  Action.erase flow
  pure l

/-- Replaces the flows of a device by connections (`route_circuit_flows`). -/
def routeCircuitFlows (device : OpId) : Action Unit := do
  let p ← get
  let _ ← (p.findIn device "aie.flow").foldlM (routeCircuitFlow device) (p.channelsOf device)

end TileFlow
