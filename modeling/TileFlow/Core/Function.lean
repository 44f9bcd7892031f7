import TileFlow.Device.Placement
import TileFlow.Stage.Action

/-!
# Functions for cores

The cores of a program become functions, its buffers become globals and its lock uses become
calls of intrinsics; the devices are gone afterwards.

## Main definitions

* `lowerLockUse`, `lowerOperand`: the operations of a core in terms of globals and calls.
* `lowerCores`: functions and globals in place of devices.
-/

namespace TileFlow

/-- Turns a lock use into a call of an intrinsic (`lower_use_lock`). -/
def lowerLockUse (intrinsics : String × String) (use : OpId) : Action Unit := do
  let p ← get
  let op := p.op use
  let lock ← Action.orFail (op.operandValue? 0) .useWithoutLock
  let id ← Action.orFail
    ((op.intAttr? "lock_id").or ((p.definingOp? lock).bind fun d => (p.op d).operandInt? 1))
    (.lockWithoutId lock)
  let amount := (op.operandInt? 2).getD 0
  let action := (op.operandText? 1).getD "acquire"
  let callee ←
    if action = "acquire" ∨ action = "acquire_ge" then pure intrinsics.1
    else if action = "release" then pure intrinsics.2
    else throw (.unknownLockAction action)
  Action.update use fun op => { op with
    name := "func.call"
    operands := [.symbol callee, .int id, .int amount]
    attributes := .empty }

/-- The symbols that stand for the buffer values of a device, the last of a value counting. -/
abbrev BufferSymbols := List (String × String)

/-- The symbol that stands for a value. -/
def BufferSymbols.get? (s : BufferSymbols) (value : String) : Option String :=
  (s.find? (·.1 == value)).map (·.2)

/-- The attributes of a buffer that its global keeps. -/
def globalAttributes (op : Operation) : Dictionary :=
  .ofList (["size", "address"].filterMap fun key => (op.attr? key).map (key, ·))

/-- Puts the global of a buffer before its device, if the buffer has a value (in
`core_to_standard`). -/
def insertGlobal (device : OpId) (symbols : BufferSymbols) (buffer : OpId) :
    Action BufferSymbols := do
  let op := (← get).op buffer
  match op.result, op.symbolName? with
  | some value, some symbol =>
    let _ ← Action.insertBefore device
      { name := "memref.global", operands := [.symbol symbol], attributes := globalAttributes op }
    pure ((value, symbol) :: symbols)
  | _, _ => pure symbols

/-- An operand of a core in terms of globals and of the values of the core itself. -/
def lowerOperand (symbols : BufferSymbols) (locals : List String) (tile : Tile) :
    Attribute → Except StageError Attribute
  | .value v =>
    match symbols.get? v with
    | some symbol => .ok (.symbol symbol)
    | none => if v ∈ locals then .ok (.value v) else .error (.noStandardLowering tile v)
  | other => .ok other

/-- Lowers one operation of a core (in `core_to_standard`). -/
def lowerCoreOp (intrinsics : String × String) (symbols : BufferSymbols) (locals : List String)
    (tile : Tile) (id : OpId) : Action Unit := do
  let op := (← get).op id
  if op.is "aie.use_lock" then lowerLockUse intrinsics id
  else
    let operands ← ExceptT.mk (pure (op.operands.mapM (lowerOperand symbols locals tile)))
    Action.update id ({ · with operands })

/-- Turns a core into a function before its device (in `core_to_standard`). -/
def lowerCore (device : OpId) (symbols : BufferSymbols) (core : OpId) : Action Unit := do
  let p ← get
  let tile ← Action.orFail (p.owningTile? core) .coreUnplaced
  let body := p.walkIn core
  let locals := body.filterMap fun id => (p.op id).result
  body.forM (lowerCoreOp (p.modelOf device).lockIntrinsics symbols locals tile)
  let function ← Action.insertBefore device
    { name := "func.func", operands := [.symbol tile.coreSymbol], hasRegion := true }
  ((← get).children (some core)).forM fun child => Action.moveTo child function
  Action.erase core

/-- Declares an intrinsic before a device, unless it has been declared (in `core_to_standard`). -/
def declareIntrinsic (device : OpId) (declared : List String) (intrinsic : String) :
    Action (List String) := do
  if intrinsic ∈ declared then pure declared
  else
    let _ ← Action.insertBefore device
      { name := "func.func"
        operands := [.symbol intrinsic]
        attributes := .ofList [("sym_visibility", .str "private")] }
    pure (intrinsic :: declared)

/-- Replaces a device by globals, functions and the intrinsics not declared so far (in
`core_to_standard`). -/
def lowerDevice (declared : List String) (device : OpId) : Action (List String) := do
  let p ← get
  let intrinsics := (p.modelOf device).lockIntrinsics
  let symbols ← (p.findIn device "aie.buffer").foldlM (insertGlobal device) []
  ((← get).findIn device "aie.core").forM (lowerCore device symbols)
  let declared ← [intrinsics.1, intrinsics.2].foldlM (declareIntrinsic device) declared
  Action.erase device
  pure declared

/-- Replaces the devices of a program by globals and functions (`core_to_standard`). -/
def lowerCores : Action Unit := do
  let _ ← (← get).devices.foldlM lowerDevice []

end TileFlow
