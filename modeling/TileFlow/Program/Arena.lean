import TileFlow.Program.Basic

/-!
# Arenas

In memory the operations of a program are the nodes of an arena. A node stores the operation, the
list of the operations in its region, the operation that it was put below, and whether it was
erased; the arena itself stores the list of the operations at the top. So a tree is stored twice
over, from above and from below, and every edit writes only some of these links.

A function gives no result where an identity is not that of a node, where a place is behind the end
of a list, and where following the links does not come to an end.

## Main definitions

* `Arena.Node`, `Arena`: what is stored.
* `Arena.children?`, `Arena.position?`: the links from above, and those from below.
* `Arena.walk?`, `Arena.walkIn?`: the nodes in pre-order, by the links from above.
* `Arena.insertAt?`, `Arena.erase?`, `Arena.moveTo?`, `Arena.change?`: the edits.
-/

namespace TileFlow

/-- An operation as an arena stores it (`Operation`). -/
structure Arena.Node where
  name : String
  result : Option String := none
  operands : List Attribute := []
  attributes : Dictionary := .empty
  /-- The operations in the region, if there is one. -/
  region : Option (List OpId) := none
  /-- The operation that this one was put below, or none for the top. -/
  parent : Option OpId := none
  erased : Bool := false
  deriving DecidableEq, Inhabited

namespace Arena.Node

/-- The operation of a node, apart from its links. -/
def op (n : Node) : Operation where
  name := n.name
  result := n.result
  operands := n.operands
  attributes := n.attributes
  hasRegion := n.region.isSome

/-- The operations in the region of a node. -/
def block (n : Node) : List OpId :=
  n.region.getD []

/-- A node with the links of another and the content of an operation. -/
def withOp (n : Node) (op : Operation) : Node :=
  { n with
    name := op.name
    result := op.result
    operands := op.operands
    attributes := op.attributes }

/-- The node of an operation that was not put anywhere yet (`new` and what follows). -/
def ofOperation (op : Operation) : Node where
  name := op.name
  result := op.result
  operands := op.operands
  attributes := op.attributes
  region := if op.hasRegion then some [] else none

end Arena.Node

/-- The nodes of a program in the order in which they were created, with the list of those at the
top (`Module`). -/
structure Arena where
  nodes : Array Arena.Node := #[]
  body : List OpId := []
  attributes : Dictionary := .empty
  deriving DecidableEq, Inhabited

namespace Arena

/-! ### Links -/

/-- Whether a node is not erased (`is_live`). -/
def isLive? (a : Arena) (id : OpId) : Option Bool :=
  a.nodes[id]?.map (!·.erased)

/-- The operations that a node lists, or those at the top (`children`). -/
def children? (a : Arena) : Option OpId → Option (List OpId)
  | none => some a.body
  | some id => a.nodes[id]?.map Node.block

/-- Where the node that an operation was put below lists it, if it does (`position`). -/
def position? (a : Arena) (id : OpId) : Option (Option (Option OpId × Nat)) := do
  let n ← a.nodes[id]?
  let block ← a.children? n.parent
  return (block.idxOf? id).map fun i => (n.parent, i)

/-! ### Walks -/

/-- A node and all below it, behind those that were walked before (`walk_into`). A walk that gets
deeper than there are nodes comes back to where it was and never ends, so the depth may be
bounded. -/
def walkInto? (a : Arena) : (depth : Nat) → (out : List OpId) → (id : OpId) → Option (List OpId)
  | 0, _, _ => none
  | depth + 1, out, id => do
    let block ← a.children? (some id)
    block.foldlM (a.walkInto? depth) (out ++ [id])

/-- The nodes that are listed from the top on, each before those below it (`walk`). -/
def walk? (a : Arena) : Option (List OpId) :=
  a.body.foldlM (a.walkInto? a.nodes.size) []

/-- The nodes below a node, each before those below it (`walk_in`). -/
def walkIn? (a : Arena) (root : OpId) : Option (List OpId) := do
  (← a.children? (some root)).foldlM (a.walkInto? a.nodes.size) []

/-! ### Edits -/

/-- The arena with a node changed (`op_mut`). -/
def changeNode? (a : Arena) (id : OpId) (f : Node → Node) : Option Arena :=
  if id < a.nodes.size then some { a with nodes := a.nodes.modify id f } else none

/-- The arena with the content of a node changed, and all links kept (in `op_mut`). -/
def change? (a : Arena) (id : OpId) (f : Operation → Operation) : Option Arena :=
  a.changeNode? id fun n => n.withOp (f n.op)

/-- The arena with the list of a node changed, or that of the top (`block_mut`). A node without a
region gets one. -/
def changeBlock? (a : Arena) (parent : Option OpId) (f : List OpId → List OpId) : Option Arena :=
  match parent with
  | none => some { a with body := f a.body }
  | some id => a.changeNode? id fun n => { n with region := some (f n.block) }

/-- A new node at a place of a list (`insert_at`). -/
def insertAt? (a : Arena) (parent : Option OpId) (i : Nat) (n : Node) : Option (OpId × Arena) := do
  let id := a.nodes.size
  let b := { a with nodes := a.nodes.push { n with parent, erased := false } }
  let block ← b.children? parent
  guard (i ≤ block.length)
  let c ← b.changeBlock? parent (·.insertIdx i id)
  return (id, c)

/-- A new node at the end of a list (`append`). -/
def append? (a : Arena) (parent : Option OpId) (n : Node) : Option (OpId × Arena) := do
  let block ← a.children? parent
  a.insertAt? parent block.length n

/-- A new node before another, at the end of the top if that one is not listed
(`insert_before`). -/
def insertBefore? (a : Arena) (anchor : OpId) (n : Node) : Option (OpId × Arena) := do
  match ← a.position? anchor with
  | some (parent, i) => a.insertAt? parent i n
  | none => a.insertAt? none a.body.length n

/-- A new node after another, at the end of the top if that one is not listed
(`insert_after`). -/
def insertAfter? (a : Arena) (anchor : OpId) (n : Node) : Option (OpId × Arena) := do
  match ← a.position? anchor with
  | some (parent, i) => a.insertAt? parent (i + 1) n
  | none => a.insertAt? none a.body.length n

/-- A node taken out of the list of the one that it was put below (`unlink`). -/
def unlink? (a : Arena) (id : OpId) : Option Arena := do
  let n ← a.nodes[id]?
  a.changeBlock? n.parent (·.filter (· ≠ id))

/-- Marks the nodes of a stack, and all that they list, as erased: the loop of `erase`, which takes
as many steps as a walk from these nodes visits nodes. -/
def markAll? (a : Arena) : (steps : Nat) → (stack : List OpId) → Option Arena
  | _, [] => some a
  | 0, _ :: _ => none
  | steps + 1, id :: stack => do
    let block ← a.children? (some id)
    let b ← a.changeNode? id ({ · with erased := true })
    b.markAll? steps (block.reverse ++ stack)

/-- A node taken out of its list, and marked as erased with all below it (`erase`). -/
def erase? (a : Arena) (id : OpId) : Option Arena := do
  let b ← a.unlink? id
  let ids ← b.walkInto? b.nodes.size [] id
  b.markAll? ids.length [id]

/-- A node taken out of its list and put at the end of another (`move_to`). -/
def moveTo? (a : Arena) (id : OpId) (parent : Option OpId) : Option Arena := do
  let b ← a.unlink? id
  let c ← b.changeNode? id ({ · with parent })
  c.changeBlock? parent (· ++ [id])

end Arena

end TileFlow
