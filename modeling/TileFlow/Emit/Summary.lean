import TileFlow.Device.Placement
import TileFlow.Error
import TileFlow.Text.Case

/-!
# Summaries of routed devices

What the host has to set up on a device: its cores, the initial values of its locks, its
buffers, and the routes through its switchboxes.

## Main definitions

* `DeviceSummary`: the resources of a device.
* `Program.summaries`: the summaries of the devices of a program.
* `SetupCall`: a call of the array driver, with its text for a handle.
-/

namespace TileFlow

/-- A lock with its initial value (`Lock`). -/
structure LockSummary where
  tile : Tile
  id : Int
  initial : Int
  deriving DecidableEq, Repr

/-- A buffer with its place in memory (`Buffer`). -/
structure BufferSummary where
  symbol : String
  tile : Tile
  address : Int
  size : Int
  deriving DecidableEq, Repr

/-- One end of a route in a switchbox. -/
structure RouteEnd where
  bundle : String
  channel : Int
  deriving DecidableEq, Repr

/-- A route through a switchbox (`Route`): a circuit, or a rule for packets with an identifier. -/
structure RouteSummary where
  tile : Tile
  input : RouteEnd
  output : RouteEnd
  packetId : Option Int
  deriving DecidableEq, Repr

/-- The resources of a routed device (`DeviceSummary`). -/
structure DeviceSummary where
  model : DeviceModel
  cores : List Tile
  locks : List LockSummary
  buffers : List BufferSummary
  routes : List RouteSummary
  deriving DecidableEq, Repr

/-- The operations that routing replaces. -/
def unroutedNames : List String :=
  ["aie.flow", "aie.packet_flow", "aiex.multicast", "aiex.broadcast_packet"]

namespace Program

/-- The tile that an operation has to sit on (`placed`). -/
def placed (p : Program) (id : OpId) : Except EmitError Tile :=
  match p.owningTile? id with
  | some tile => .ok tile
  | none => .error (.unplaced (p.op id).name)

/-- The summary of a lock (in `collect`). -/
def lockSummary (p : Program) (id : OpId) : Except EmitError LockSummary := do
  let op := p.op id
  match op.operandInt? 1 with
  | none => .error .lockWithoutId
  | some n =>
    let tile ← p.placed id
    pure ⟨tile, n, (op.intAttr? "init").getD 0⟩

/-- The summary of a buffer (in `collect`). -/
def bufferSummary (p : Program) (id : OpId) : Except EmitError BufferSummary := do
  let op := p.op id
  let symbol := op.symbolName?.getD "buffer"
  match op.intAttr? "address" with
  | none => .error (.bufferWithoutAddress symbol)
  | some address =>
    let tile ← p.placed id
    pure ⟨symbol, tile, address, (op.intAttr? "size").getD 0⟩

/-- The end of a route that two operands describe. -/
def routeEnd (op : Operation) (first : Nat) : Except EmitError RouteEnd :=
  match op.operandText? first, op.operandInt? (first + 1) with
  | some bundle, some channel => .ok ⟨bundle, channel⟩
  | _, _ => .error (.malformed op.name)

/-- The route that an operation in a switchbox on a tile describes, if it describes one (in
`collect`). -/
def routeSummary (tile : Tile) (op : Operation) :
    Except EmitError (List RouteSummary) := do
  if op.is "aie.connect" || op.is "aie.packet_rule" then
    let packetId := if op.is "aie.connect" then none else some ((op.intAttr? "id").getD 0)
    let input ← routeEnd op 0
    let output ← routeEnd op 2
    pure [⟨tile, input, output, packetId⟩]
  else pure []

/-- The routes of a switchbox (in `collect`). -/
def switchboxRoutes (p : Program) (box : OpId) : Except EmitError (List RouteSummary) := do
  let tile ← p.placed box
  let routes ← (p.children (some box)).mapM fun id => routeSummary tile (p.op id)
  pure routes.flatten

/-- The summary of a device, all of whose streams have to be routed (`collect`). -/
def summary (p : Program) (device : OpId) : Except EmitError DeviceSummary := do
  match unroutedNames.find? fun name => !(p.findIn device name).isEmpty with
  | some name => .error (.unrouted name)
  | none =>
    let cores ← (p.findIn device "aie.core").mapM p.placed
    let locks ← (p.findIn device "aie.lock").mapM p.lockSummary
    let buffers ← (p.findIn device "aie.buffer").mapM p.bufferSummary
    let routes ← (p.findIn device "aie.switchbox").mapM p.switchboxRoutes
    pure { model := p.modelOf device, cores, locks, buffers, routes := routes.flatten }

/-- The summaries of the devices of a program (`summarize`). -/
def summaries (p : Program) : Except EmitError (List DeviceSummary) :=
  p.devices.mapM p.summary

end Program

/-- A call of the array driver that sets up a device. -/
inductive SetupCall where
  | coreReset (tile : Tile)
  | coreUnreset (tile : Tile)
  | loadElf (tile : Tile)
  | coreEnable (tile : Tile)
  | setLock (lock : LockSummary)
  | connect (tile : Tile) (input output : RouteEnd)
  | packetSource (tile : Tile) (input : RouteEnd)
  | packetSlot (tile : Tile) (input : RouteEnd) (id : Int) (output : RouteEnd)
  | packetSink (tile : Tile) (output : RouteEnd)
  deriving DecidableEq, Repr

/-- The expression for a tile (`tile`). -/
def Tile.location (t : Tile) : String :=
  s!"XAie_TileLoc({t.column}, {t.row})"

/-- The expression for the bundle of a route end (`port_name`). -/
def RouteEnd.bundleName (e : RouteEnd) : String :=
  Text.toUpper e.bundle

/-- The function of a call, and its arguments after the handle. -/
def SetupCall.parts : SetupCall → String × String
  | .coreReset t => ("XAie_CoreReset", t.location)
  | .coreUnreset t => ("XAie_CoreUnreset", t.location)
  | .loadElf t =>
    ("XAie_LoadElf", s!"{t.location}, (const char *)\"{t.coreSymbol}.elf\", XAIE_DISABLE")
  | .coreEnable t => ("XAie_CoreEnable", t.location)
  | .setLock l => ("XAie_LockSetValue", s!"{l.tile.location}, XAie_LockInit({l.id}, {l.initial})")
  | .connect t i o =>
    ("XAie_StrmConnCctEnable",
    s!"{t.location}, {i.bundleName}, {i.channel}, {o.bundleName}, {o.channel}")
  | .packetSource t i =>
    ("XAie_StrmPktSwSlavePortEnable", s!"{t.location}, {i.bundleName}, {i.channel}")
  | .packetSlot t i id o =>
    ("XAie_StrmPktSwSlaveSlotEnable",
      s!"{t.location}, {i.bundleName}, {i.channel}, 0, XAie_PacketInit({id}, 0), 0x1F, {o.channel}, 0")
  | .packetSink t o =>
    ("XAie_StrmPktSwMstrPortEnable",
      s!"{t.location}, {o.bundleName}, {o.channel}, XAIE_SS_PKT_DONOT_DROP_HEADER, 0, 0x1")

/-- The line of a call on a handle. -/
def SetupCall.render (handle : String) (c : SetupCall) : String :=
  s!"  {c.parts.1}({handle}, {c.parts.2});\n"

/-- The lines of calls on a handle. -/
def renderCalls (handle : String) (calls : List SetupCall) : String :=
  String.join (calls.map (·.render handle))

/-- The calls that set up a route (in `write_routes`). -/
def RouteSummary.calls (r : RouteSummary) : List SetupCall :=
  match r.packetId with
  | none => [.connect r.tile r.input r.output]
  | some id =>
    [.packetSource r.tile r.input, .packetSlot r.tile r.input id r.output,
      .packetSink r.tile r.output]

namespace DeviceSummary

/-- The calls that reset the cores. -/
def resetCalls (s : DeviceSummary) : List SetupCall :=
  s.cores.flatMap fun t => [.coreReset t, .coreUnreset t]

/-- The calls that reset the cores and load their programs. -/
def loadCalls (s : DeviceSummary) : List SetupCall :=
  s.cores.flatMap fun t => [.coreReset t, .coreUnreset t, .loadElf t]

/-- The calls that start the cores. -/
def enableCalls (s : DeviceSummary) : List SetupCall :=
  s.cores.map .coreEnable

/-- The calls that initialise the locks. -/
def lockCalls (s : DeviceSummary) : List SetupCall :=
  s.locks.map .setLock

/-- The calls that set up the routes (`write_routes`). -/
def routeCalls (s : DeviceSummary) : List SetupCall :=
  s.routes.flatMap (·.calls)

end DeviceSummary

end TileFlow
