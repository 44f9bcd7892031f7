import TileFlow.Device.Placement
import TileFlow.Integer
import TileFlow.Stage.Action

/-!
# Locks

Every lock of a device gets an identifier that is unique on its tile, and every use of a lock
in a core is resolved to the identifier of a lock that the core can reach.

## Main definitions

* `LockLedger`: the identifiers in use on each tile.
* `assignLockIds`: the smallest free identifier for each lock without one.
* `nextFreeLockId`: the smallest free identifier of a tile.
* `localizeLocks`: identifiers for the lock uses in cores.
-/

namespace TileFlow

/-- How an operation is named in a message (`value_label`). -/
def Program.labelOf (p : Program) (id : OpId) : String :=
  match (p.op id).result with
  | some name => "%" ++ name
  | none => (p.op id).name

/-- The identifier of a lock. -/
def Operation.lockId? (op : Operation) : Option Int :=
  op.operandInt? 1

/-- The identifiers in use on each tile. -/
structure LockLedger where
  taken : List (Tile × Int)

namespace LockLedger

/-- Whether an identifier is in use on a tile. -/
def isTaken (l : LockLedger) (tile : Tile) (id : Int) : Bool :=
  l.taken.contains (tile, id)

/-- The ledger with an identifier in use on a tile. -/
def take (l : LockLedger) (tile : Tile) (id : Int) : LockLedger :=
  ⟨(tile, id) :: l.taken⟩

/-- The smallest identifier below a limit that is free on a tile. -/
def firstFree? (l : LockLedger) (tile : Tile) (limit : Nat) : Option Int :=
  ((List.range limit).map Int.ofNat).find? fun id => !l.isTaken tile id

end LockLedger

/-- Checks the placement of a lock, and enters the identifier it already has (in `assign_lock_ids`).
-/
def enterLock (model : DeviceModel) (ledger : LockLedger) (lock : OpId) :
    Action LockLedger := do
  let p ← get
  let tile ← Action.orFail (p.owningTile? lock) (.lockUnplaced (p.labelOf lock))
  match (p.op lock).lockId? with
  | none => pure ledger
  | some id =>
    Action.ensure (0 ≤ id && id < model.lockCount tile.row) (.lockIdOutOfRange id tile)
    Action.ensure (!ledger.isTaken tile id) (.lockIdUsedTwice id tile)
    pure (ledger.take tile id)

/-- Gives a lock without an identifier the smallest free one of its tile (in `assign_lock_ids`). -/
def chooseLockId (model : DeviceModel) (ledger : LockLedger) (lock : OpId) :
    Action LockLedger := do
  let p ← get
  match (p.op lock).lockId? with
  | some _ => pure ledger
  | none =>
    let tile ← Action.orFail (p.owningTile? lock) (.lockUnplaced (p.labelOf lock))
    let limit := model.lockCount tile.row
    let id ← Action.orFail (ledger.firstFree? tile limit) (.tooManyLocks tile limit)
    Action.update lock fun op => { op with operands := op.operands.take 1 ++ [.int id] }
    pure (ledger.take tile id)

/-- Gives every lock of a device an identifier, and checks those already given (`assign_lock_ids`).
-/
def assignLockIds (device : OpId) : Action Unit := do
  let p ← get
  let model := p.modelOf device
  let locks := p.findIn device "aie.lock"
  let ledger ← locks.foldlM (enterLock model) ⟨[]⟩
  let _ ← locks.foldlM (chooseLockId model) ledger

/-- The identifiers of the locks of a device that sit on a tile (`used_lock_ids`). -/
def Program.lockIdsOn (p : Program) (device : OpId) (tile : Tile) : List Int :=
  ((p.findIn device "aie.lock").filter fun id => p.owningTile? id == some tile).filterMap
    fun id => (p.op id).lockId?

/-- The smallest identifier that no lock of a device on a tile has (`next_free_lock_id`). -/
def nextFreeLockId (device : OpId) (tile : Tile) : Action Int := do
  let p ← get
  let limit := (p.modelOf device).lockCount tile.row
  let ledger : LockLedger := ⟨(p.lockIdsOn device tile).map (tile, ·)⟩
  Action.orFail (ledger.firstFree? tile limit) (.tooManyLocks tile limit)

/-- The number of steps between two tiles, as it comes out in 64 bits with a sign (in
`localize_locks`). -/
def Tile.distance (a b : Tile) : Int :=
  Integer.wrap (Integer.magnitude (Integer.wrap (a.column - b.column)) +
    Integer.magnitude (Integer.wrap (a.row - b.row)))

/-- Resolves one use of a lock in a core on `coreTile` (in `localize_locks`). -/
def localizeUse (coreTile : Tile) (use : OpId) : Action Unit := do
  let p ← get
  let value ← Action.orFail ((p.op use).operandValue? 0) .useWithoutLock
  let lock ← Action.orFail
    ((p.definingOp? value).filter fun id => (p.op id).is "aie.lock") (.notALock value)
  let id ← Action.orFail (p.op lock).lockId? (.lockWithoutId value)
  let lockTile ← Action.orFail (p.owningTile? lock) (.usedLockUnplaced value)
  Action.ensure (lockTile.distance coreTile ≤ 1) (.lockNotAccessible value lockTile coreTile)
  Action.update use (·.withAttr "lock_id" (.int id))

/-- Resolves the uses of locks in one core (in `localize_locks`). -/
def localizeCore (core : OpId) : Action Unit := do
  let tile ← Action.orFail ((← get).owningTile? core) .coreUnplaced
  ((← get).findIn core "aie.use_lock").forM (localizeUse tile)

/-- Resolves the uses of locks in the cores of a device to identifiers within reach
(`localize_locks`). -/
def localizeLocks (device : OpId) : Action Unit := do
  ((← get).findIn device "aie.core").forM localizeCore

end TileFlow
