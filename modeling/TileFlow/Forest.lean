/-!
# Ordered forests

An ordered forest is a list of trees whose nodes carry a label. It is written in
first-child, next-sibling form: a nonempty forest is a node, the forest below it and the
forest of its later siblings, so that every function on forests is one plain recursion.

The forests of this library carry distinct labels; the functions that search for a label
work on the first node in pre-order that carries it.

## Main definitions

* `Forest.preorder`: the labels, each node before those below it.
* `Forest.roots`: the labels of the top nodes.
* `Forest.below?`: the forest below a label.
* `Forest.locate?`: the parent of a label and its place among its siblings.
* `Forest.update`, `Forest.insertAt`, `Forest.remove`: edits at a label.
-/

namespace TileFlow

/-- An ordered forest with labels of type `α`. -/
inductive Forest (α : Type) where
  | nil
  | cons (label : α) (children rest : Forest α)
  deriving DecidableEq, Repr

namespace Forest

variable {α β : Type}

instance : Inhabited (Forest α) := ⟨nil⟩

/-- The labels of a forest, each node before the nodes below it. -/
def preorder : Forest α → List α
  | nil => []
  | cons a children rest => a :: (children.preorder ++ rest.preorder)

/-- The labels of the top nodes. -/
def roots : Forest α → List α
  | nil => []
  | cons a _ rest => a :: rest.roots

/-- The number of nodes. -/
def size : Forest α → Nat
  | nil => 0
  | cons _ children rest => children.size + rest.size + 1

/-- The forest with `f` applied to every label. -/
def map (f : α → β) : Forest α → Forest β
  | nil => nil
  | cons a children rest => cons (f a) (children.map f) (rest.map f)

/-- The trees of one forest followed by those of another. -/
def append : Forest α → Forest α → Forest α
  | nil, g => g
  | cons a children rest, g => cons a children (rest.append g)

instance : Append (Forest α) := ⟨append⟩

/-- The forest of one tree. -/
def single (a : α) (children : Forest α) : Forest α :=
  cons a children nil

/-- The forest with a tree put before its `i`-th tree, or at the end if there are fewer. -/
def insertAt : Forest α → (i : Nat) → (a : α) → (children : Forest α) → Forest α
  | nil, _, a, children => single a children
  | cons b below rest, 0, a, children => cons a children (cons b below rest)
  | cons b below rest, j + 1, a, children => cons b below (rest.insertAt j a children)

variable [DecidableEq α]

/-- The forest below a label. -/
def below? (a : α) : Forest α → Option (Forest α)
  | nil => none
  | cons b children rest =>
    if b = a then some children else (children.below? a).or (rest.below? a)

/-- The forest with `f` applied to the forest below a label. -/
def update (a : α) (f : Forest α → Forest α) : Forest α → Forest α
  | nil => nil
  | cons b children rest =>
    if b = a then cons b (f children) rest
    else cons b (children.update a f) (rest.update a f)

/-- The forest without the tree at a label. -/
def remove (a : α) : Forest α → Forest α
  | nil => nil
  | cons b children rest =>
    if b = a then rest else cons b (children.remove a) (rest.remove a)

/-- The parent of a label and its place among its siblings, for a forest below `parent`
whose first tree has place `i`. -/
def locateFrom? (a : α) (parent : Option α) (i : Nat) : Forest α → Option (Option α × Nat)
  | nil => none
  | cons b children rest =>
    if b = a then some (parent, i)
    else (children.locateFrom? a (some b) 0).or (rest.locateFrom? a parent (i + 1))

/-- The parent of a label and its place among its siblings. -/
def locate? (a : α) (f : Forest α) : Option (Option α × Nat) :=
  f.locateFrom? a none 0

end Forest

end TileFlow
