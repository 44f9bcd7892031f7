import TileFlow.Program.Dictionary

/-!
# Operations

An operation has a name with a dialect before its first dot, an optional result value,
operands and named attributes, and may own a region of further operations.

## Main definitions

* `Operation`: one operation, apart from its place in a program.
* `Operation.symbolName?`: the name by which it is known.
-/

namespace TileFlow

/-- An operation, apart from its place in a program (`Operation`). The result is kept without its
sigil. -/
structure Operation where
  name : String
  result : Option String := none
  operands : List Attribute := []
  attributes : Dictionary := .empty
  /-- Whether the operation owns a region, be it an empty one. -/
  hasRegion : Bool := false
  deriving DecidableEq, Inhabited

namespace Operation

/-- Whether an operation has a given name (`is`). -/
def is (op : Operation) (name : String) : Bool :=
  op.name == name

/-- The part of the name before its first dot (`dialect`). -/
def dialect (op : Operation) : String :=
  String.ofList (op.name.toList.takeWhile (· != '.'))

/-- The attribute under a name (`attr`). -/
def attr? (op : Operation) (key : String) : Option Attribute :=
  op.attributes.get? key

/-- The integer under a name (`int_attr`). -/
def intAttr? (op : Operation) (key : String) : Option Int :=
  (op.attr? key).bind Attribute.int?

/-- The text under a name (`str_attr`). -/
def textAttr? (op : Operation) (key : String) : Option String :=
  (op.attr? key).bind Attribute.text?

/-- The value that an operand refers to (`operand_value`). -/
def operandValue? (op : Operation) (i : Nat) : Option String :=
  op.operands[i]?.bind Attribute.value?

/-- The integer of an operand (`operand_int`). -/
def operandInt? (op : Operation) (i : Nat) : Option Int :=
  op.operands[i]?.bind Attribute.int?

/-- The text of an operand (`operand_str`). -/
def operandText? (op : Operation) (i : Nat) : Option String :=
  op.operands[i]?.bind Attribute.text?

/-- The symbol of an operand (`operand_symbol`). -/
def operandSymbol? (op : Operation) (i : Nat) : Option String :=
  op.operands[i]?.bind Attribute.symbol?

/-- The symbol name that an operation declares, or else the name of its result (`symbol_name`). -/
def symbolName? (op : Operation) : Option String :=
  (op.textAttr? "sym_name").or op.result

/-- The operation with an attribute put under a name (`with_attr`). -/
def withAttr (op : Operation) (key : String) (value : Attribute) : Operation :=
  { op with attributes := op.attributes.insert key value }

/-- The written form of an operation up to its region (in `fmt_op`). -/
def header (op : Operation) : String :=
  (match op.result with
    | some r => "%" ++ r ++ " = "
    | none => "") ++
  op.name ++
  (if op.operands.isEmpty then "" else "(" ++ commaSeparated (op.operands.map (·.render)) ++ ")") ++
  (if op.attributes.isEmpty then "" else " \x7b" ++ op.attributes.render ++ "\x7d")

end Operation

end TileFlow
