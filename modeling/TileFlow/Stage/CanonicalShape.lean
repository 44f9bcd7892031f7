import TileFlow.Stage.Action

/-!
# Structural stages

Three stages give a program its canonical shape: affine control flow and accesses become
structured ones, a program without a device is wrapped in the default device, and structured
control flow becomes loops and conditionals without terminators.

## Main definitions

* `lowerAffine`: no affine operation is left.
* `wrapInDevice`: there is a device.
* `lowerStructured`: no structured control flow is left.
-/

namespace TileFlow

/-- The new names of affine operations (in `lower_affine`). -/
def affineNames : List (String × String) :=
  [("affine.for", "scf.for"), ("affine.if", "scf.if"), ("affine.yield", "scf.yield"),
    ("affine.load", "memref.load"), ("affine.store", "memref.store")]

/-- An operation with its name replaced by a table of names (`rename_ops`). -/
def Operation.renamed (table : List (String × String)) (op : Operation) : Operation :=
  match table.find? (·.1 == op.name) with
  | some (_, name) => { op with name }
  | none => op

/-- Renames affine operations (`lower_affine`); one without a counterpart is an error. -/
def lowerAffine : Action Unit := do
  modify fun p => p.walk.foldl (fun q id => q.modify id (·.renamed affineNames)) p
  let p ← get
  match p.walk.find? fun id => (p.op id).dialect == "affine" with
  | some id => throw (.cannotLower (p.op id).name)
  | none => pure ()

/-- The device of programs that name none (`DEFAULT_DEVICE`). -/
def defaultDevice : Operation :=
  { name := "aie.device", operands := [.ident "xcvc1902"], hasRegion := true }

/-- Moves the whole body into the default device if there is no device at its top
(`canonicalize_device`). -/
def wrapInDevice : Action Unit := do
  let p ← get
  if p.devices.isEmpty then
    let device ← modifyGet (·.insertAt none 0 defaultDevice)
    p.body.roots.forM fun id => Action.moveTo id device

/-- Turns one structured operation into an unstructured one. -/
def lowerControl (id : OpId) : Action Unit := do
  let op := (← get).op id
  if op.is "scf.for" then
    Action.ensure (op.operands.length == 3) (.loopArity op.operands.length)
    Action.update id ({ · with name := "cf.loop" })
  else if op.is "scf.if" then
    Action.update id ({ · with name := "cf.cond" })

/-- Drops terminators, and turns loops and conditionals into their unstructured forms
(`convert_scf_to_cf`). -/
def lowerStructured : Action Unit := do
  ((← get).findAll "scf.yield").forM Action.erase
  (← get).walk.forM lowerControl

end TileFlow
