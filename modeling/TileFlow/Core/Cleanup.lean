import TileFlow.Stage.Action

/-!
# Cleaning up

What functions and globals leave behind is dropped: runtime operations, terminators,
declarations that no call names, and copies of equal declarations and globals.

## Main definitions

* `dropRuntime`: no runtime operation is left.
* `dropUnused`: no terminator and no unused private declaration is left.
* `mergeEqual`: no two equal declarations or globals are left.
-/

namespace TileFlow

/-- Whether an operation declares a function without defining it (`is_declaration`). -/
def Operation.isDeclaration (op : Operation) : Bool :=
  (op.is "func.func" || op.is "llvm.func") && !op.hasRegion

/-- Whether an operation calls a function (`is_call`). -/
def Operation.isCall (op : Operation) : Bool :=
  op.is "func.call" || op.is "llvm.call"

/-- Erases an operation unless it is erased already. -/
def eraseLive (id : OpId) : Action Unit := do
  if (← get).isLive id then Action.erase id

/-- Drops the runtime operations that are left (`aiex_to_standard`). -/
def dropRuntime : Action Unit := do
  (← get).walk.forM fun id => do
    if ((← get).op id).dialect = "aiex" then eraseLive id

/-- The symbols that calls name. -/
def Program.calledSymbols (p : Program) : List String :=
  (p.walk.filter fun id => (p.op id).isCall).filterMap fun id => (p.op id).operandSymbol? 0

/-- Whether an operation is a private declaration that no call names (in `canonicalize`). -/
def Operation.isUnused (called : List String) (op : Operation) : Bool :=
  op.isDeclaration && op.textAttr? "sym_visibility" == some "private" &&
    match op.operandSymbol? 0 with
    | some symbol => !called.contains symbol
    | none => true

/-- Drops terminators, and private declarations that are not called (`canonicalize`). -/
def dropUnused : Action Unit := do
  (← get).walk.forM fun id => do
    let op := (← get).op id
    if op.is "aie.end" || op.is "scf.yield" then eraseLive id
  let called := (← get).calledSymbols
  (← get).body.roots.forM fun id => do
    if ((← get).op id).isUnused called then Action.erase id

/-- Whether an operation may be merged with an equal one (in `cse`). -/
def Operation.isMergeable (op : Operation) : Bool :=
  op.isDeclaration || op.is "memref.global" || op.is "llvm.global"

/-- Drops an operation that equals one seen before (in `cse`). -/
def mergeOne (seen : List Operation) (id : OpId) : Action (List Operation) := do
  let op := (← get).op id
  if !op.isMergeable then pure seen
  else if seen.any fun other =>
      other.name == op.name && other.operands == op.operands &&
        other.attributes == op.attributes then
    Action.erase id
    pure seen
  else pure (op :: seen)

/-- Merges equal declarations and globals at the top of a program (`cse`). -/
def mergeEqual : Action Unit := do
  let _ ← (← get).body.roots.foldlM mergeOne []

end TileFlow
