import TileFlow.Stage.Action

/-!
# Broadcast and multicast

Operations that name one source and several destinations are replaced in place: a broadcast by
one packet flow for each of its packet identifiers, and a multicast by one flow for each of
its destinations.

## Main definitions

* `lowerBroadcasts`: packet flows in place of broadcasts.
* `lowerMulticasts`: flows in place of multicasts.
-/

namespace TileFlow

/-- The three operands that describe the source of an operation. -/
def sourceOperands (id : OpId) : Action (List Attribute) := do
  let op := (← get).op id
  Action.ensure (op.operands.length == 3) (.fanOutArity op.name)
  pure op.operands

/-- The operands of the operations with a name below another. -/
def Program.operandsIn (p : Program) (id : OpId) (name : String) : List (List Attribute) :=
  (p.findIn id name).map fun d => (p.op d).operands

/-- Puts the packet flow of one group before a broadcast (in `broadcast_packets`). -/
def insertPacketFlow (broadcast : OpId) (source : List Attribute) (group : OpId) :
    Action Unit := do
  let p ← get
  let id ← Action.orFail ((p.op group).operandInt? 0) .packetGroupWithoutId
  let flow ← Action.insertBefore broadcast
    { name := "aie.packet_flow", operands := [.int id], hasRegion := true }
  let _ ← Action.append flow { name := "aie.packet_source", operands := source }
  (p.operandsIn group "aiex.bp_dest").forM fun operands => do
    let _ ← Action.append flow { name := "aie.packet_dest", operands }

/-- Replaces a broadcast by packet flows (in `broadcast_packets`). -/
def lowerBroadcast (broadcast : OpId) : Action Unit := do
  let source ← sourceOperands broadcast
  ((← get).findIn broadcast "aiex.bp_id").forM (insertPacketFlow broadcast source)
  Action.erase broadcast

/-- Replaces the broadcasts of a device by packet flows (`broadcast_packets`). -/
def lowerBroadcasts (device : OpId) : Action Unit := do
  ((← get).findIn device "aiex.broadcast_packet").forM lowerBroadcast

/-- Replaces a multicast by flows (`lower_multicast`). -/
def lowerMulticast (multicast : OpId) : Action Unit := do
  let source ← sourceOperands multicast
  ((← get).operandsIn multicast "aiex.multi_dest").forM fun destination => do
    let _ ← Action.insertBefore multicast
      { name := "aie.flow", operands := source ++ destination }
  Action.erase multicast

/-- Replaces the multicasts of a device by flows (`lower_multicast`). -/
def lowerMulticasts (device : OpId) : Action Unit := do
  ((← get).findIn device "aiex.multicast").forM lowerMulticast

end TileFlow
