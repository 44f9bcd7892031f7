import TileFlow.Stage.Action

/-!
# Processes on object FIFOs

An object FIFO is a channel of a fixed depth between two tiles. A process registered on it
becomes a loop in the core of its tile that acquires a slot, calls a function and releases the
slot.

## Main definitions

* `Side`: the two sides of a FIFO.
* `coreFor`: the core on a tile.
* `registerProcesses`: loops in cores for the registered processes.
-/

namespace TileFlow

/-- The first FIFO of a device with a name (`find_fifo`). -/
def Program.fifo? (p : Program) (device : OpId) (name : String) : Option OpId :=
  (p.findIn device "aie.objectfifo").find? fun id =>
    (p.op id).textAttr? "sym_name" == some name

/-- The first core of a device on the tile of a value (`core_for_tile`). -/
def Program.coreOn? (p : Program) (device : OpId) (tile : String) : Option OpId :=
  (p.findIn device "aie.core").find? fun id => (p.op id).operandValue? 0 == some tile

/-- The core on the tile of a value, created at the end of the device if there is none
(`core_for_tile`). -/
def coreFor (device : OpId) (tile : String) : Action OpId := do
  match (← get).coreOn? device tile with
  | some core => pure core
  | none =>
    let core ← Action.append device
      { name := "aie.core", operands := [.value tile], hasRegion := true }
    let _ ← Action.append core { name := "aie.end" }
    pure core

/-- The sides of a FIFO. -/
inductive Side where
  | produce
  | consume
  deriving DecidableEq, Repr

/-- The side with a name. -/
def Side.ofName? : String → Option Side
  | "produce" => some .produce
  | "consume" => some .consume
  | _ => none

/-- The name of a side. -/
def Side.name : Side → String
  | .produce => "produce"
  | .consume => "consume"

/-- The operand of a FIFO that holds the tile of a side. -/
def Side.tileIndex : Side → Nat
  | .produce => 0
  | .consume => 1

/-- A loop that runs `count` times. -/
def loopOf (count : Int) : Operation :=
  { name := "scf.for", operands := [.int 0, .int count, .int 1], hasRegion := true }

/-- A new operation at the end of a core, but before its terminator (in `register_processes`). -/
def appendToCore (core : OpId) (op : Operation) : Action OpId := do
  let p ← get
  match (p.children (some core)).getLast? with
  | some last => if (p.op last).is "aie.end" then Action.insertBefore last op else
      Action.append core op
  | none => Action.append core op

/-- An access of one slot of a FIFO. -/
def accessOf (name fifo : String) (side : Side) : Operation :=
  { name, operands := [.symbol fifo, .ident side.name, .int 1] }

/-- Turns a registered process into a loop that acquires a slot, calls the function and releases the
slot (in `register_processes`). -/
def registerProcess (device registration : OpId) : Action Unit := do
  let p ← get
  let op := p.op registration
  let fifo ← Action.orFail (op.operandSymbol? 0) .registrationWithoutFifo
  let sideName := (op.operandText? 1).getD "consume"
  let function ← Action.orFail (op.operandSymbol? 2) .registrationWithoutFunction
  let count := (op.intAttr? "count").getD 1
  let fifoOp ← Action.orFail (p.fifo? device fifo) (.unknownFifo fifo)
  let side ← Action.orFail (Side.ofName? sideName) (.unknownSide sideName)
  let tile ← Action.orFail ((p.op fifoOp).operandValue? side.tileIndex)
    (.fifoWithoutTile fifo side.name)
  let core ← coreFor device tile
  let loop ← appendToCore core (loopOf count)
  let _ ← Action.append loop (accessOf "aie.objectfifo.acquire" fifo side)
  let _ ← Action.append loop { name := "func.call", operands := [.symbol function] }
  let _ ← Action.append loop (accessOf "aie.objectfifo.release" fifo side)
  Action.erase registration

/-- Turns the registered processes of a device into loops in cores (`register_processes`). -/
def registerProcesses (device : OpId) : Action Unit := do
  ((← get).findIn device "aie.objectfifo.register_process").forM (registerProcess device)

end TileFlow
