import TileFlow.Stage.Action

/-!
# Names for the backend

Every operation of a program without devices has a name that the backend knows, and every
function ends in a return.

## Main definitions

* `backendName?`: the name for the backend, if there is one.
* `lowerNames`: the names of the backend.
-/

namespace TileFlow

/-- The names of the backend that do not follow from a prefix. -/
def backendNames : List (String × String) :=
  [("func.func", "llvm.func"), ("func.call", "llvm.call"), ("func.return", "llvm.return"),
    ("memref.global", "llvm.global"), ("memref.load", "llvm.load"),
    ("memref.store", "llvm.store"), ("cf.loop", "llvm.loop"), ("cf.cond", "llvm.cond")]

/-- The name of an operation for the backend (in `convert_to_llvm`). -/
def backendName? (name : String) : Option String :=
  match backendNames.find? (·.1 == name) with
  | some (_, lowered) => some lowered
  | none =>
    if name.startsWith "arith." then some ("llvm." ++ String.ofList (name.toList.drop 6))
    else if name.startsWith "llvm." then some name
    else none

/-- Gives an operation its name for the backend. -/
def lowerName (id : OpId) : Action Unit := do
  let op := (← get).op id
  let name ← Action.orFail (backendName? op.name) (.cannotLegalize op.name)
  Action.update id ({ · with name })

/-- Whether an operation ends a function. -/
def Operation.isReturn (op : Operation) : Bool :=
  op.is "llvm.return"

/-- Puts a return at the end of a function that has none there (in `convert_to_llvm`). -/
def terminate (id : OpId) : Action Unit := do
  let p ← get
  let op := p.op id
  if op.is "llvm.func" && op.hasRegion then
    match (p.children (some id)).getLast? with
    | some last => if (p.op last).isReturn then pure () else
        let _ ← Action.append id { name := "llvm.return" }
    | none =>
      let _ ← Action.append id { name := "llvm.return" }

/-- Gives every operation its name for the backend, and every function a return (`convert_to_llvm`).
-/
def lowerNames : Action Unit := do
  (← get).walk.forM lowerName
  (← get).body.roots.forM terminate

end TileFlow
