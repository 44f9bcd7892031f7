import TileFlow.Routing.Switchbox

/-!
# Packet routing

A packet flow becomes rules for its packet identifier in the switchboxes on the paths from its
source to each of its destinations. Between tiles packets share channel 0, and a rule that a
switchbox already has is not repeated.

## Main definitions

* `layPackets`: the rules along one path.
* `routePacketFlows`: rules in place of packet flows.
-/

namespace TileFlow

/-- A rule that sends packets with an identifier from an input to an output (in
`route_packet_flows`). -/
def packetRule (id : Int) (input output : Channel) : Operation :=
  (connection "aie.packet_rule" input output).withAttr "id" (.int id)

/-- Adds an operation to a switchbox that has no equal one (in `route_packet_flows`). -/
def addOnce (box : OpId) (rule : Operation) : Action Unit := do
  let p ← get
  let present := (p.children (some box)).any fun id =>
    let op := p.op id
    op.name == rule.name && op.operands == rule.operands && op.attributes == rule.attributes
  if present then pure ()
  else
    let _ ← Action.append box rule

/-- Lays the rules of packets that enter the first tile of a path at `input` and leave the last one
at `output` (in `route_packet_flows`). -/
def layPackets (device : OpId) (id : Int) (output : Channel) :
    Channel → List Tile → Action Unit
  | _, [] => pure ()
  | input, [tile] => do
    let box ← switchboxFor device tile
    addOnce box (packetRule id input output)
  | input, tile :: next :: rest => do
    let direction := Direction.between tile next
    let box ← switchboxFor device tile
    addOnce box (packetRule id input ⟨direction.name, 0⟩)
    layPackets device id output ⟨direction.opposite.name, 0⟩ (next :: rest)

/-- Replaces a packet flow by rules (in `route_packet_flows`). -/
def routePacketFlow (device flow : OpId) : Action Unit := do
  let p ← get
  let model := p.modelOf device
  let id ← Action.orFail ((p.op flow).operandInt? 0) .packetFlowWithoutId
  let source ←
    match p.findIn flow "aie.packet_source" with
    | [single] => readEndpoint (p.op single) 0
    | _ => throw (.packetSourceCount id)
  checkInside model source.tile
  let destinations ← (p.findIn flow "aie.packet_dest").mapM fun d => readEndpoint (p.op d) 0
  Action.ensure (!destinations.isEmpty) (.packetWithoutDestination id)
  destinations.forM fun destination => do
    checkInside model destination.tile
    layPackets device id destination.channel source.channel
      (source.tile.pathTo destination.tile)
  Action.erase flow

/-- Replaces the packet flows of a device by rules (`route_packet_flows`). -/
def routePacketFlows (device : OpId) : Action Unit := do
  ((← get).findIn device "aie.packet_flow").forM (routePacketFlow device)

end TileFlow
