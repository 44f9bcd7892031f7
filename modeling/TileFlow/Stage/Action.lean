import TileFlow.Program.Edit
import TileFlow.Stage.Error

/-!
# Actions of the stages

A stage edits a program step by step and may give up at any of them. What it has changed by
then stays changed: an action ends in a program in either case.

## Main definitions

* `Action`: edits that may give up.
* `Action.orFail`: an optional value whose absence is an error.
* `Action.insertBefore`, `Action.append`, `Action.erase`, …: the edits as actions.
-/

namespace TileFlow

/-- Edits of a program that may give up half-way (`PassResult`). -/
abbrev Action (α : Type) : Type :=
  ExceptT StageError (StateM Program) α

namespace Action

variable {α : Type}

/-- Runs an action on a program. -/
def runOn (x : Action α) (p : Program) : Except StageError α × Program :=
  Id.run (StateT.run (ExceptT.run x) p)

/-- An optional value; its absence is an error. -/
def orFail (x : Option α) (e : StageError) : Action α :=
  match x with
  | some a => pure a
  | none => throw e

/-- Gives up unless a condition holds. -/
def ensure (condition : Bool) (e : StageError) : Action Unit :=
  if condition then pure () else throw e

/-- A new operation before another. -/
def insertBefore (anchor : OpId) (op : Operation) : Action OpId :=
  modifyGet (·.insertBefore anchor op)

/-- A new operation after the children of another. -/
def append (parent : OpId) (op : Operation) : Action OpId :=
  modifyGet (·.append (some parent) op)

/-- A new operation before the children of another. -/
def prepend (parent : OpId) (op : Operation) : Action OpId :=
  modifyGet (·.insertAt (some parent) 0 op)

/-- An operation and all below it, erased. -/
def erase (id : OpId) : Action Unit :=
  modify (·.erase id)

/-- A tree moved after the children of an operation. -/
def moveTo (id parent : OpId) : Action Unit :=
  modify (·.moveTo id (some parent))

/-- An operation changed. -/
def update (id : OpId) (f : Operation → Operation) : Action Unit :=
  modify (·.modify id f)

end Action

end TileFlow
