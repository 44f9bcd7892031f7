import TileFlow.Proofs.Program.Dictionary
import TileFlow.Source.Parser

/-!
# The grammar of programs

The notation of programs as a grammar over tokens. Every rule is a relation between a list of
tokens and what it stands for, so that a token list derives from the grammar when it is related
to something:

* `source := 'module' attrs? '{' op* '}' | op*`, where the first form is the only one for a
  list that starts with the identifier `module`;
* `op := (VALUE '=')? IDENT ('(' (operand (',' operand)*)? ')')? attrs? ('{' op* '}')?`;
* `operand := VALUE | attr`;
* `attrs := '{' IDENT '=' attr (',' IDENT '=' attr)* '}'`;
* `attr := INT | STRING | IDENT | SYMBOL | '[' (attr (',' attr)*)? ']'`.

The grammar does not know which values are defined. That is a condition on the statements of a
derivation in the order in which they are written, an enclosing statement before the statements
of its region.

## Main definitions

* `IsAttribute`, `IsOperand`, `IsBinding`, `IsStatement`, `IsBlock`, `IsSource`: the rules.
* `Statement`: an operation as it is written, with all bindings of its attributes.
* `DefinesOnce`, `DefinesBeforeUse`: the conditions on values.
* `Program.IsArenaOf`: the program that a derivation describes.
-/

namespace TileFlow

namespace Source

variable {α : Type}

/-! ### Attributes and operands -/

/-- One or more items with commas between them. -/
inductive CommaSeparated (Item : List Token → α → Prop) : List Token → List α → Prop
  | single {ts : List Token} {a : α} : Item ts a → CommaSeparated Item ts [a]
  | cons {ts us : List Token} {a : α} {as : List α} :
      Item ts a → CommaSeparated Item us as →
      CommaSeparated Item (ts ++ .mark .comma :: us) (a :: as)

/-- `attr := INT | STRING | IDENT | SYMBOL | '[' (attr (',' attr)*)? ']'`. -/
inductive IsAttribute : List Token → Attribute → Prop
  | int (n : Int) : IsAttribute [.int n] (.int n)
  | str (s : String) : IsAttribute [.str s] (.str s)
  | ident (s : String) : IsAttribute [.ident s] (.ident s)
  | symbol (s : String) : IsAttribute [.symbol s] (.symbol s)
  | emptyArray : IsAttribute [.mark .leftBracket, .mark .rightBracket] (.array [])
  | array {ts : List Token} {items : List Attribute} :
      CommaSeparated IsAttribute ts items →
      IsAttribute (.mark .leftBracket :: (ts ++ [.mark .rightBracket])) (.array items)

/-- `operand := VALUE | attr`. -/
inductive IsOperand : List Token → Attribute → Prop
  | value (name : String) : IsOperand [.value name] (.value name)
  | attr {ts : List Token} {a : Attribute} : IsAttribute ts a → IsOperand ts a

/-- `IDENT '=' attr`. -/
inductive IsBinding : List Token → String × Attribute → Prop
  | mk {ts : List Token} {a : Attribute} (key : String) :
      IsAttribute ts a → IsBinding (.ident key :: .mark .equals :: ts) (key, a)

/-- `attrs?`. -/
inductive IsDictionary : List Token → List (String × Attribute) → Prop
  | absent : IsDictionary [] []
  | present {ts : List Token} {bindings : List (String × Attribute)} :
      CommaSeparated IsBinding ts bindings →
      IsDictionary (.mark .leftBrace :: (ts ++ [.mark .rightBrace])) bindings

/-- `('(' (operand (',' operand)*)? ')')?`. -/
inductive IsArguments : List Token → List Attribute → Prop
  | absent : IsArguments [] []
  | empty : IsArguments [.mark .leftParen, .mark .rightParen] []
  | present {ts : List Token} {operands : List Attribute} :
      CommaSeparated IsOperand ts operands →
      IsArguments (.mark .leftParen :: (ts ++ [.mark .rightParen])) operands

/-- `(VALUE '=')?`. -/
inductive IsResult : List Token → Option String → Prop
  | absent : IsResult [] none
  | present (name : String) : IsResult [.value name, .mark .equals] (some name)

/-! ### Statements -/

/-- An operation as it is written: its attributes are all bindings in their order. -/
structure Statement where
  result : Option String
  name : String
  operands : List Attribute
  bindings : List (String × Attribute)
  hasRegion : Bool

/-- The operation that a statement describes. -/
def Statement.operation (s : Statement) : Operation where
  name := s.name
  result := s.result
  operands := s.operands
  attributes := .ofList s.bindings
  hasRegion := s.hasRegion

/-- An operation up to its region. -/
inductive IsStatement : List Token → Statement → Prop
  | mk {rs os as : List Token} {result : Option String} {operands : List Attribute}
      {bindings : List (String × Attribute)} (name : String) (hasRegion : Bool) :
      IsResult rs result → IsArguments os operands → IsDictionary as bindings →
      IsStatement (rs ++ .ident name :: (os ++ as))
        { result, name, operands, bindings, hasRegion }

/-- `op*`, where an operation has nothing below it unless it has a region. -/
inductive IsBlock : List Token → Forest Statement → Prop
  | nil : IsBlock [] .nil
  | plain {ts us : List Token} {s : Statement} {rest : Forest Statement} :
      IsStatement ts s → s.hasRegion = false → IsBlock us rest →
      IsBlock (ts ++ us) (.cons s .nil rest)
  | region {ts vs us : List Token} {s : Statement} {inner rest : Forest Statement} :
      IsStatement ts s → s.hasRegion = true → IsBlock vs inner → IsBlock us rest →
      IsBlock (ts ++ .mark .leftBrace :: (vs ++ .mark .rightBrace :: us)) (.cons s inner rest)

/-- `source := 'module' attrs? '{' op* '}' | op*`. -/
inductive IsSource : List Token → List (String × Attribute) → Forest Statement → Prop
  | wrapped {as ts : List Token} {bindings : List (String × Attribute)}
      {ops : Forest Statement} :
      IsDictionary as bindings → IsBlock ts ops →
      IsSource (.ident "module" :: (as ++ .mark .leftBrace :: (ts ++ [.mark .rightBrace])))
        bindings ops
  | bare {ts : List Token} {ops : Forest Statement} :
      ts.head? ≠ some (.ident "module") → IsBlock ts ops → IsSource ts [] ops

/-! ### Values -/

/-- No two statements define the same value. -/
def DefinesOnce (ops : Forest Statement) : Prop :=
  (ops.preorder.filterMap (·.result)).Nodup

/-- Every value among the operands of a statement is the result of a statement that comes
strictly earlier: one that encloses it or one that precedes it. -/
def DefinesBeforeUse (ops : Forest Statement) : Prop :=
  ∀ (i : Nat) (s : Statement), ops.preorder[i]? = some s →
    ∀ v, .value v ∈ s.operands →
      ∃ (j : Nat) (d : Statement), j < i ∧ ops.preorder[j]? = some d ∧ d.result = some v

/-! ### Values, one statement after the other -/

/-- Whether a statement may follow the definition of some values: it uses only these, and its
own result is none of them. -/
structure Statement.FitsAfter (s : Statement) (defined : List String) : Prop where
  uses : ∀ v, .value v ∈ s.operands → v ∈ defined
  defines : ∀ v, s.result = some v → v ∉ defined

/-- A statement fits whether it has a region or not. -/
theorem Statement.FitsAfter.withRegion {s : Statement} {defined : List String}
    (h : s.FitsAfter defined) (hasRegion : Bool) :
    Statement.FitsAfter { s with hasRegion } defined :=
  ⟨h.uses, h.defines⟩

/-- The values defined after statements. -/
def definedAfter (defined : List String) (l : List Statement) : List String :=
  l.foldl (fun d s => define s.operation d) defined

/-- Whether statements may follow the definition of some values, each in its turn. -/
def WellScoped : List String → List Statement → Prop
  | _, [] => True
  | defined, s :: rest => s.FitsAfter defined ∧ WellScoped (define s.operation defined) rest

/-- The values defined after two lists of statements. -/
theorem definedAfter_append (defined : List String) (l k : List Statement) :
    definedAfter defined (l ++ k) = definedAfter (definedAfter defined l) k :=
  List.foldl_append

/-- Two lists of statements are well scoped if the second is so after the first. -/
theorem wellScoped_append {defined : List String} {l k : List Statement} :
    WellScoped defined (l ++ k) ↔
      WellScoped defined l ∧ WellScoped (definedAfter defined l) k := by
  induction l generalizing defined with
  | nil => simp [WellScoped, definedAfter]
  | cons s l ih => simp [WellScoped, definedAfter, ih, and_assoc]

/-- The tokens of a list, without their places. -/
abbrev tokens (ts : List Located) : List Token :=
  ts.map (·.token)

end Source

open Source in
/-- The program that a derivation describes. Its operations are those of the derivation in
pre-order, none of them erased; they form the same trees, numbered in pre-order, so that
parents and children are those of the derivation; and every dictionary keeps the last binding
of a key. -/
structure Program.IsArenaOf (p : Program) (bindings : List (String × Attribute))
    (ops : Forest Statement) : Prop where
  arena : p.slots.toList.map (·.op) = ops.preorder.map Statement.operation
  live : ∀ s ∈ p.slots.toList, s.erased = false
  trees : p.contents = ops.map Statement.operation
  numbering : p.walk = List.range p.slots.size
  detached : p.detached = []
  attributes : ∀ key, p.attributes.get? key = lastBinding? bindings key
  keepsLast : ∀ s ∈ ops.preorder, ∀ key, s.operation.attr? key = lastBinding? s.bindings key

end TileFlow
