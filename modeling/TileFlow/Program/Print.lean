import TileFlow.Program.Basic

/-!
# The written form of programs

A program is written with one operation a line, two spaces deeper for each level, and braces
around each region.

## Main definitions

* `printForest`: the lines of a forest of operations.
* `Program.print`: a whole program.
-/

namespace TileFlow

/-- The spaces before a line at a depth. -/
def indent (depth : Nat) : String :=
  String.ofList (List.replicate (2 * depth) ' ')

/-- The lines of a forest of operations (`fmt_op`). -/
def printForest (depth : Nat) : Forest Operation → String
  | .nil => ""
  | .cons op children rest =>
    indent depth ++ op.header ++
      (if op.hasRegion then
        " \x7b\n" ++ printForest (depth + 1) children ++ indent depth ++ "\x7d"
      else "") ++
      "\n" ++ printForest depth rest

/-- The written form of a program with given attributes and operations. -/
def printModule (attributes : Dictionary) (ops : Forest Operation) : String :=
  "module" ++
    (if attributes.isEmpty then "" else " \x7b" ++ attributes.render ++ "\x7d") ++
    " \x7b\n" ++ printForest 1 ops ++ "\x7d\n"

/-- The written form of a program (`fmt`). -/
def Program.print (p : Program) : String :=
  printModule p.attributes p.contents

end TileFlow
