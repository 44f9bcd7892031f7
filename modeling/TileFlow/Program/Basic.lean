import TileFlow.Forest
import TileFlow.Program.Operation

/-!
# Programs

A program holds its operations in the order in which they were created, so that the position
of an operation is its identity for good, and arranges these identities in an ordered forest,
the body. A tree that was cut out of the body is kept aside with the place it was cut from:
its operations are still there to be read, and it can be linked in again.

Here and in the other modules, a name in parentheses in the description of a definition is the one
that the compiler has for what is defined, or for the part of it that is meant.

## Main definitions

* `Program`: operations, body, trees set aside and attributes.
* `Program.walk`: the operations of the body in pre-order.
* `Program.children`, `Program.locate?`, `Program.parent?`: the links of the forest.
* `Program.findAll`, `Program.findIn`, `Program.devices`: operations by name.
* `Program.definingOp?`, `Program.freshValue`: value names.
* `Program.contents`: the body with the operations themselves in place of their identities.
-/

namespace TileFlow

/-- The identity of an operation (`OpId`): how many were created before it. -/
abbrev OpId := Nat

/-- The name under which an identity is reported. -/
def OpId.label (id : OpId) : String :=
  "op" ++ toString id

/-- An operation and whether it has been erased. -/
structure Slot where
  op : Operation
  erased : Bool := false
  deriving DecidableEq, Inhabited

/-- A tree set aside: its root, the forest below it and the parent it was cut from. -/
structure Detached where
  parent : Option OpId
  root : OpId
  children : Forest OpId
  deriving DecidableEq

/-- The forest below an operation of a tree set aside. -/
def Detached.below? (d : Detached) (id : OpId) : Option (Forest OpId) :=
  if d.root = id then some d.children else d.children.below? id

/-- A program (`Module`). The trees set aside are in ascending order of their roots. -/
structure Program where
  slots : Array Slot := #[]
  body : Forest OpId := .nil
  detached : List Detached := []
  attributes : Dictionary := .empty
  deriving DecidableEq, Inhabited

namespace Program

/-- The operation with an identity (`op`). -/
def op (p : Program) (id : OpId) : Operation :=
  (p.slots[id]?.map (·.op)).getD default

/-- Whether an operation has not been erased (`is_live`). -/
def isLive (p : Program) (id : OpId) : Bool :=
  (p.slots[id]?.map (!·.erased)).getD false

/-- The forest below an operation, wherever it is. -/
def below (p : Program) (id : OpId) : Forest OpId :=
  ((p.body.below? id).or (p.detached.findSome? (·.below? id))).getD .nil

/-- The forest below an operation, or the body. -/
def block (p : Program) : Option OpId → Forest OpId
  | none => p.body
  | some id => p.below id

/-- The operations directly below an operation, or at the top of the body (`children`). -/
def children (p : Program) (parent : Option OpId) : List OpId :=
  (p.block parent).roots

/-- The parent of a linked operation and its place among its siblings (in `position`). -/
def locate? (p : Program) (id : OpId) : Option (Option OpId × Nat) :=
  (p.body.locate? id).or
    (p.detached.findSome? fun d => d.children.locateFrom? id (some d.root) 0)

/-- The parent of an operation (in `Operation`); for the root of a tree set aside, the one it was
cut from. -/
def parent? (p : Program) (id : OpId) : Option OpId :=
  match p.locate? id with
  | some (parent, _) => parent
  | none => (p.detached.find? (·.root == id)).bind (·.parent)

/-- The operations of the body, each before those below it (`walk`). -/
def walk (p : Program) : List OpId :=
  p.body.preorder

/-- The operations below an operation, each before those below it (`walk_in`). -/
def walkIn (p : Program) (root : OpId) : List OpId :=
  (p.below root).preorder

/-- The operations of the body with a name (`find_all`). -/
def findAll (p : Program) (name : String) : List OpId :=
  p.walk.filter fun id => (p.op id).is name

/-- The operations with a name below an operation (`find_in`). -/
def findIn (p : Program) (root : OpId) (name : String) : List OpId :=
  (p.walkIn root).filter fun id => (p.op id).is name

/-- The devices at the top of the body (`devices`). -/
def devices (p : Program) : List OpId :=
  p.body.roots.filter fun id => (p.op id).is "aie.device"

/-- The first operation of the body that defines a value (`defining_op`). -/
def definingOp? (p : Program) (value : String) : Option OpId :=
  p.walk.find? fun id => (p.op id).result == some value

/-- The first operation of the body that declares a symbol name (`lookup_symbol`). -/
def lookupSymbol? (p : Program) (symbol : String) : Option OpId :=
  p.walk.find? fun id => (p.op id).textAttr? "sym_name" == some symbol

/-- The values that the body defines, in order. -/
def definedValues (p : Program) : List String :=
  p.walk.filterMap fun id => (p.op id).result

/-- The `n`-th variant of a name. -/
def numbered (base : String) (n : Nat) : String :=
  base ++ "_" ++ toString n

/-- A name that none of the taken ones equals (in `fresh_value`): the base itself, or its first free
variant. Among one more variants than there are taken names, one is free. -/
def freshName (taken : List String) (base : String) : String :=
  if base ∈ taken then
    (((List.range (taken.length + 1)).map fun n => numbered base (n + 1)).find?
      fun name => decide (name ∉ taken)).getD base
  else base

/-- A value name made from a base that the body does not define yet (`fresh_value`). -/
def freshValue (p : Program) (base : String) : String :=
  freshName p.definedValues base

/-- The number of operations in the body (`live_count`). -/
def liveCount (p : Program) : Nat :=
  p.walk.length

/-- The body with the operations themselves as labels. -/
def contents (p : Program) : Forest Operation :=
  p.body.map p.op

end Program

end TileFlow
