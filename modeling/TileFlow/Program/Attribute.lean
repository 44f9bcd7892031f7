import TileFlow.Source.Token

/-!
# Attributes

The values that operations carry as operands and as named attributes: integers, quoted texts,
bare identifiers, symbols, references to values, and arrays of these.

## Main definitions

* `Attribute`: an operand or an attribute value.
* `Attribute.render`: its written form.
* `commaSeparated`: the written form of a list.
-/

namespace TileFlow

/-- An operand or an attribute value (`Attribute`). Only operands refer to values. -/
inductive Attribute where
  | int (n : Int)
  | str (text : String)
  | ident (name : String)
  | symbol (name : String)
  | value (name : String)
  | array (items : List Attribute)
  deriving Repr, Inhabited

namespace Attribute

mutual

/-- Equality of attributes is decidable. -/
def decEq : (a b : Attribute) → Decidable (a = b)
  | .int m, .int n => decidable_of_iff (m = n) (by simp)
  | .str s, .str t => decidable_of_iff (s = t) (by simp)
  | .ident s, .ident t => decidable_of_iff (s = t) (by simp)
  | .symbol s, .symbol t => decidable_of_iff (s = t) (by simp)
  | .value s, .value t => decidable_of_iff (s = t) (by simp)
  | .array xs, .array ys => @decidable_of_iff _ (xs = ys) (by simp) (decEqList xs ys)
  | .int _, .str _ | .int _, .ident _ | .int _, .symbol _ | .int _, .value _ | .int _, .array _
  | .str _, .int _ | .str _, .ident _ | .str _, .symbol _ | .str _, .value _ | .str _, .array _
  | .ident _, .int _ | .ident _, .str _ | .ident _, .symbol _ | .ident _, .value _
  | .ident _, .array _
  | .symbol _, .int _ | .symbol _, .str _ | .symbol _, .ident _ | .symbol _, .value _
  | .symbol _, .array _
  | .value _, .int _ | .value _, .str _ | .value _, .ident _ | .value _, .symbol _
  | .value _, .array _
  | .array _, .int _ | .array _, .str _ | .array _, .ident _ | .array _, .symbol _
  | .array _, .value _ => isFalse (by simp)

/-- Equality of lists of attributes is decidable. -/
def decEqList : (xs ys : List Attribute) → Decidable (xs = ys)
  | [], [] => isTrue rfl
  | x :: xs, y :: ys =>
    @decidable_of_iff _ (x = y ∧ xs = ys) (by simp)
      (@instDecidableAnd _ _ (decEq x y) (decEqList xs ys))
  | [], _ :: _ | _ :: _, [] => isFalse (by simp)

end

instance : DecidableEq Attribute := decEq

/-- The number of an integer (`as_int`). -/
def int? : Attribute → Option Int
  | .int n => some n
  | _ => none

/-- The text of a quoted text or of a bare identifier (`as_str`). -/
def text? : Attribute → Option String
  | .str s => some s
  | .ident s => some s
  | _ => none

/-- The name of a symbol (`as_symbol`). -/
def symbol? : Attribute → Option String
  | .symbol s => some s
  | _ => none

/-- The name of a value (`as_value`). -/
def value? : Attribute → Option String
  | .value s => some s
  | _ => none

end Attribute

/-- Texts with a comma and a space between them. -/
def commaSeparated : List String → String
  | [] => ""
  | [s] => s
  | s :: rest => s ++ ", " ++ commaSeparated rest

namespace Attribute

mutual

/-- The written form of an attribute (`fmt`). -/
def render : Attribute → String
  | .int n => toString n
  | .str s => Text.Quoted.encode s
  | .ident s => s
  | .symbol s => "@" ++ s
  | .value s => "%" ++ s
  | .array items => "[" ++ commaSeparated (renderList items) ++ "]"

/-- The written forms of a list of attributes. -/
def renderList : List Attribute → List String
  | [] => []
  | x :: xs => x.render :: renderList xs

end

end Attribute

end TileFlow
