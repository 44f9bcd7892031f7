import TileFlow.Program.Basic

/-!
# Edits of programs

Operations are created at a place, moved, erased and changed. Erasing cuts a tree out and
marks its operations; nothing is ever renumbered.

## Main definitions

* `Program.insertAt`, `Program.append`, `Program.insertBefore`, `Program.insertAfter`:
  creation at a place.
* `Program.erase`, `Program.moveTo`: whole trees.
* `Program.modify`: a change of one operation.
-/

namespace TileFlow.Program

/-- The program with an operation changed (`op_mut`). -/
def modify (p : Program) (id : OpId) (f : Operation → Operation) : Program :=
  { p with slots := p.slots.modify id fun s => { s with op := f s.op } }

/-- The program with the forest below an operation changed, or the body (in `block_mut`). An
operation that receives a block owns a region from then on. -/
def updateBlock (p : Program) (parent : Option OpId) (f : Forest OpId → Forest OpId) :
    Program :=
  match parent with
  | none => { p with body := f p.body }
  | some id =>
    let q := p.modify id fun op => { op with hasRegion := true }
    { q with
      body := q.body.update id f
      detached := q.detached.map fun d =>
        { d with children := if d.root = id then f d.children else d.children.update id f } }

/-- A new operation at a place among the children of an operation or of the body (`insert_at`). -/
def insertAt (p : Program) (parent : Option OpId) (i : Nat) (op : Operation) :
    OpId × Program :=
  let id := p.slots.size
  (id, { p with slots := p.slots.push { op } }.updateBlock parent (·.insertAt i id .nil))

/-- A new operation after the children of an operation or of the body (`append`). -/
def append (p : Program) (parent : Option OpId) (op : Operation) : OpId × Program :=
  p.insertAt parent (p.children parent).length op

/-- A new operation before another (`insert_before`); at the end of the body if that one is not
linked. -/
def insertBefore (p : Program) (anchor : OpId) (op : Operation) : OpId × Program :=
  match p.locate? anchor with
  | some (parent, i) => p.insertAt parent i op
  | none => p.append none op

/-- A new operation after another (`insert_after`); at the end of the body if that one is not
linked. -/
def insertAfter (p : Program) (anchor : OpId) (op : Operation) : OpId × Program :=
  match p.locate? anchor with
  | some (parent, i) => p.insertAt parent (i + 1) op
  | none => p.append none op

/-- The program without the tree at an operation. -/
def remove (p : Program) (id : OpId) : Program :=
  { p with
    body := p.body.remove id
    detached := (p.detached.filter (·.root != id)).map fun d =>
      { d with children := d.children.remove id } }

/-- The trees set aside with one more, in ascending order of the roots. -/
def insertDetached (d : Detached) : List Detached → List Detached
  | [] => [d]
  | e :: rest => if d.root < e.root then d :: e :: rest else e :: insertDetached d rest

/-- The program with the tree at an operation set aside (in `unlink`). -/
def detach (p : Program) (id : OpId) : Program :=
  let q := p.remove id
  { q with detached := insertDetached ⟨p.parent? id, id, p.below id⟩ q.detached }

/-- The program with operations marked as erased. -/
def markErased (p : Program) (ids : List OpId) : Program :=
  { p with
    slots := ids.foldl (fun slots id => slots.modify id ({ · with erased := true })) p.slots }

/-- The program without an operation and all below it (`erase`). -/
def erase (p : Program) (id : OpId) : Program :=
  (p.detach id).markErased (id :: p.walkIn id)

/-- The program with the tree at an operation moved after the children of another, or of the body
(`move_to`). -/
def moveTo (p : Program) (id : OpId) (parent : Option OpId) : Program :=
  let tree := Forest.single id (p.below id)
  (p.remove id).updateBlock parent (· ++ tree)

end TileFlow.Program
