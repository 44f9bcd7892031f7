import TileFlow.Core.BackendName
import TileFlow.Core.Cleanup
import TileFlow.Core.Function
import TileFlow.Error
import TileFlow.Fifo.Channel
import TileFlow.Memory.Layout
import TileFlow.Memory.Transfer
import TileFlow.Routing.Circuit
import TileFlow.Routing.FanOut
import TileFlow.Routing.Packet
import TileFlow.Stage.CanonicalShape

/-!
# Stages

The stages by name. A stage works on the whole program or on each of its devices in turn; the
devices are those at the top of the body when the stage starts.

## Main definitions

* `Scope`, `Stage`: the stages and where they work.
* `Stage.run`: the effect of a stage on a program.
-/

namespace TileFlow

/-- Where a stage works (`Scope`). -/
inductive Scope where
  | program
  | device
  deriving DecidableEq, Repr

/-- The stages of the compiler, and stages that a caller brings along (`Stage`). -/
inductive Stage where
  | lowerAffine
  | canonicalizeDevice
  | assignLockIds
  | registerObjectFifos
  | lowerObjectFifos
  | broadcastPackets
  | routePacketFlows
  | lowerMulticast
  | assignBufferAddresses
  | lowerStructured
  | routeCircuitFlows
  | lowerTransfers
  | localizeLocks
  | normalizeAddressSpaces
  | lowerCores
  | dropRuntime
  | dropUnused
  | mergeEqual
  | lowerNames
  | custom (name : String) (scope : Scope) (action : Action Unit)

namespace Stage

/-- The name of a stage in pipelines and messages (`name`). -/
def name : Stage → String
  | lowerAffine => "lower-affine"
  | canonicalizeDevice => "aie-canonicalize-device"
  | assignLockIds => "aie-assign-lock-ids"
  | registerObjectFifos => "aie-register-objectFifos"
  | lowerObjectFifos => "aie-objectFifo-stateful-transform"
  | broadcastPackets => "aie-broadcast-packet"
  | routePacketFlows => "aie-create-packet-flows"
  | lowerMulticast => "aie-lower-multicast"
  | assignBufferAddresses => "aie-assign-buffer-addresses"
  | lowerStructured => "convert-scf-to-cf"
  | routeCircuitFlows => "aie-create-pathfinder-flows"
  | lowerTransfers => "aie-dma-to-ipu"
  | localizeLocks => "aie-localize-locks"
  | normalizeAddressSpaces => "aie-normalize-address-spaces"
  | lowerCores => "aie-standard-lowering"
  | dropRuntime => "aiex-standard-lowering"
  | dropUnused => "canonicalize"
  | mergeEqual => "cse"
  | lowerNames => "convert-to-llvm"
  | custom name _ _ => name

/-- The stages of the compiler itself. -/
def builtin : List Stage :=
  [lowerAffine, canonicalizeDevice, assignLockIds, registerObjectFifos, lowerObjectFifos,
    broadcastPackets, routePacketFlows, lowerMulticast, assignBufferAddresses, lowerStructured,
    routeCircuitFlows, lowerTransfers, localizeLocks, normalizeAddressSpaces, lowerCores,
    dropRuntime, dropUnused, mergeEqual, lowerNames]

/-- The stage of the compiler with a name. -/
def ofName? (name : String) : Option Stage :=
  builtin.find? (·.name == name)

/-- Where a stage works (`scope`). -/
def scope : Stage → Scope
  | assignLockIds | registerObjectFifos | lowerObjectFifos | broadcastPackets
  | routePacketFlows | lowerMulticast | assignBufferAddresses | routeCircuitFlows
  | lowerTransfers | localizeLocks | normalizeAddressSpaces => .device
  | custom _ scope _ => scope
  | lowerAffine | canonicalizeDevice | lowerStructured | lowerCores | dropRuntime | dropUnused
  | mergeEqual | lowerNames => .program

/-- Applies an action to each device at the top of a program (`for_each_device`). -/
def onEachDevice (action : OpId → Action Unit) : Action Unit := do
  (← get).devices.forM action

/-- What a stage does (in `run`). -/
def action : Stage → Action Unit
  | lowerAffine => TileFlow.lowerAffine
  | canonicalizeDevice => TileFlow.wrapInDevice
  | assignLockIds => onEachDevice TileFlow.assignLockIds
  | registerObjectFifos => onEachDevice TileFlow.registerProcesses
  | lowerObjectFifos => onEachDevice TileFlow.lowerObjectFifos
  | broadcastPackets => onEachDevice TileFlow.lowerBroadcasts
  | routePacketFlows => onEachDevice TileFlow.routePacketFlows
  | lowerMulticast => onEachDevice TileFlow.lowerMulticasts
  | assignBufferAddresses => onEachDevice TileFlow.assignBufferAddresses
  | lowerStructured => TileFlow.lowerStructured
  | routeCircuitFlows => onEachDevice TileFlow.routeCircuitFlows
  | lowerTransfers => onEachDevice TileFlow.lowerTransfers
  | localizeLocks => onEachDevice TileFlow.localizeLocks
  | normalizeAddressSpaces => onEachDevice TileFlow.dropMemorySpaces
  | lowerCores => TileFlow.lowerCores
  | dropRuntime => TileFlow.dropRuntime
  | dropUnused => TileFlow.dropUnused
  | mergeEqual => TileFlow.mergeEqual
  | lowerNames => TileFlow.lowerNames
  | custom _ _ action => action

/-- The effect of a stage (`run`): its error, if it gives up, and the program it leaves in either
case. -/
def run (s : Stage) (p : Program) : Except CompileError Unit × Program :=
  let (result, q) := s.action.runOn p
  (result.mapError (.stageFailed s.name), q)

end Stage

end TileFlow
