import TileFlow.Error
import TileFlow.Program.Basic

/-!
# The parser

A program is either the word `module` with optional attributes and a region, or a bare list
of operations. An operation is an optional result, a name, optional operands, an optional
attribute dictionary and an optional region. A brace opens a dictionary when an identifier
and an equals sign follow it, and a region otherwise.

Every value is defined once, and before it is used: operands may refer to the results of
operations that come earlier in pre-order, an enclosing operation included.

## Main definitions

* `parseAttribute`, `parseOperation`, `parseBlock`: the parts of the grammar.
* `parseTokens`: the attributes and operations of a token list.
* `Program.ofForest`: the program of given operations.
* `parse`: the program of a source text.
-/

namespace TileFlow

namespace Source

/-- A value read from the start of a token list, and the rest of it. -/
structure Parsed (α : Type) (n : Nat) where
  value : α
  rest : List Located
  shorter : rest.length < n

/-- The byte at which a token list starts, in a source of `size` bytes (`offset`). -/
def offset (size : Nat) : List Located → Nat
  | [] => size
  | t :: _ => t.start

/-- The first token of a list (`current`). -/
def first? (ts : List Located) : Option Token :=
  ts.head?.map (·.token)

/-- An error at the start of a token list (in `error`). -/
def fail {α : Type} (size : Nat) (ts : List Located) (cause : ParseCause) :
    Except ParseError α :=
  .error ⟨cause, offset size ts⟩

/-- The rest of a token list that starts with a mark (`expect`). -/
def expect (size : Nat) (m : Mark) (ts : List Located) :
    Except ParseError (Parsed Unit ts.length) :=
  match ts with
  | [] => fail size [] (.expectedMark m none)
  | t :: rest =>
    if t.token = .mark m then .ok ⟨(), rest, by simp⟩
    else fail size (t :: rest) (.expectedMark m (some t.token))

mutual

/-- Reads an attribute value (`parse_attr`). -/
def parseAttribute (size : Nat) (ts : List Located) :
    Except ParseError (Parsed Attribute ts.length) :=
  match ts with
  | [] => fail size [] (.expectedValue none)
  | t :: rest =>
    match t.token with
    | .int n => .ok ⟨.int n, rest, by simp⟩
    | .str s => .ok ⟨.str s, rest, by simp⟩
    | .ident s => .ok ⟨.ident s, rest, by simp⟩
    | .symbol s => .ok ⟨.symbol s, rest, by simp⟩
    | .mark .leftBracket =>
      if first? rest = some (.mark .rightBracket) then
        .ok ⟨.array [], rest.tail, by simp only [List.length_tail, List.length_cons]; omega⟩
      else
        match parseItems size rest with
        | .error e => .error e
        | .ok ⟨items, more, h⟩ => .ok ⟨.array items, more, by simp; omega⟩
    | other => fail size (t :: rest) (.expectedValue (some other))
termination_by 2 * ts.length

/-- Reads the items of an array, the closing bracket included (in `parse_attr`). -/
def parseItems (size : Nat) (ts : List Located) :
    Except ParseError (Parsed (List Attribute) ts.length) :=
  match parseAttribute size ts with
  | .error e => .error e
  | .ok ⟨item, rest, h⟩ =>
    if hc : first? rest = some (.mark .comma) then
      have : rest.tail.length < rest.length := by
        cases rest <;> simp_all [first?]
      match parseItems size rest.tail with
      | .error e => .error e
      | .ok ⟨items, more, h'⟩ => .ok ⟨item :: items, more, by omega⟩
    else
      match expect size .rightBracket rest with
      | .error e => .error e
      | .ok ⟨_, more, h'⟩ => .ok ⟨[item], more, by omega⟩
termination_by 2 * ts.length + 1

end

/-- Reads an operand, which may be one of the values defined so far (`parse_operand`). -/
def parseOperand (size : Nat) (defined : List String) (ts : List Located) :
    Except ParseError (Parsed Attribute ts.length) :=
  match ts with
  | ⟨.value name, start, stop⟩ :: rest =>
    if name ∈ defined then .ok ⟨.value name, rest, by simp⟩
    else fail size (⟨.value name, start, stop⟩ :: rest) (.undefinedValue name)
  | ts => parseAttribute size ts

/-- Reads operands, the closing parenthesis included (in `parse_op`). -/
def parseOperands (size : Nat) (defined : List String) (ts : List Located) :
    Except ParseError (Parsed (List Attribute) ts.length) :=
  match parseOperand size defined ts with
  | .error e => .error e
  | .ok ⟨operand, rest, h⟩ =>
    if hc : first? rest = some (.mark .comma) then
      have : rest.tail.length < rest.length := by
        cases rest <;> simp_all [first?]
      match parseOperands size defined rest.tail with
      | .error e => .error e
      | .ok ⟨operands, more, h'⟩ => .ok ⟨operand :: operands, more, by omega⟩
    else
      match expect size .rightParen rest with
      | .error e => .error e
      | .ok ⟨_, more, h'⟩ => .ok ⟨[operand], more, by omega⟩
termination_by ts.length

/-- Reads the bindings of an attribute dictionary, the closing brace included (in
`parse_attr_dict`). -/
def parseBindings (size : Nat) (ts : List Located) :
    Except ParseError (Parsed (List (String × Attribute)) ts.length) :=
  match ts with
  | ⟨.ident key, _, _⟩ :: rest =>
    match expect size .equals rest with
    | .error e => .error e
    | .ok ⟨_, afterEquals, h₁⟩ =>
      match parseAttribute size afterEquals with
      | .error e => .error e
      | .ok ⟨value, afterValue, h₂⟩ =>
        if hc : first? afterValue = some (.mark .comma) then
          have : afterValue.tail.length < afterValue.length := by
            cases afterValue <;> simp_all [first?]
          match parseBindings size afterValue.tail with
          | .error e => .error e
          | .ok ⟨bindings, more, h₃⟩ => .ok ⟨(key, value) :: bindings, more, by
            simp only [List.length_cons]; omega⟩
        else
          match expect size .rightBrace afterValue with
          | .error e => .error e
          | .ok ⟨_, more, h₃⟩ => .ok ⟨[(key, value)], more, by simp only [List.length_cons]; omega⟩
  | ts => fail size ts.tail .expectedAttributeName
termination_by ts.length
decreasing_by simp only [List.length_cons]; omega

/-- Whether a token list starts with an attribute dictionary (`at_attr_dict`). -/
def startsDictionary : List Located → Bool
  | ⟨.mark .leftBrace, _, _⟩ :: ⟨.ident _, _, _⟩ :: ⟨.mark .equals, _, _⟩ :: _ => true
  | _ => false

/-- Something read from the start of a token list that may be empty, and the rest. -/
structure Optionally (α : Type) (n : Nat) where
  value : α
  rest : List Located
  bound : rest.length ≤ n

/-- Reads an attribute dictionary, if there is one (`parse_attr_dict`). -/
def parseDictionary (size : Nat) (ts : List Located) :
    Except ParseError (Optionally Dictionary ts.length) :=
  if startsDictionary ts then
    match parseBindings size ts.tail with
    | .error e => .error e
    | .ok ⟨bindings, rest, h⟩ =>
      .ok ⟨.ofList bindings, rest, by simp at h; omega⟩
  else .ok ⟨.empty, ts, Nat.le_refl _⟩

/-- Reads operands between parentheses, if there are any (in `parse_op`). -/
def parseArguments (size : Nat) (defined : List String) (ts : List Located) :
    Except ParseError (Optionally (List Attribute) ts.length) :=
  if first? ts = some (.mark .leftParen) then
    if first? ts.tail = some (.mark .rightParen) then
      .ok ⟨[], ts.tail.tail, by simp; omega⟩
    else
      match parseOperands size defined ts.tail with
      | .error e => .error e
      | .ok ⟨operands, rest, h⟩ => .ok ⟨operands, rest, by simp at h; omega⟩
  else .ok ⟨[], ts, Nat.le_refl _⟩

/-- Reads the result of an operation, if there is one (in `parse_op`). -/
def parseResult (size : Nat) (ts : List Located) :
    Except ParseError (Optionally (Option String) ts.length) :=
  match ts with
  | ⟨.value name, _, _⟩ :: rest =>
    match expect size .equals rest with
    | .error e => .error e
    | .ok ⟨_, more, h⟩ => .ok ⟨some name, more, by simp; omega⟩
  | ts => .ok ⟨none, ts, Nat.le_refl _⟩

/-- Reads an operation up to its region (`parse_op`). Its result must be new. -/
def parseOperation (size : Nat) (defined : List String) (ts : List Located) :
    Except ParseError (Parsed Operation ts.length) :=
  match parseResult size ts with
  | .error e => .error e
  | .ok ⟨result, afterResult, h₁⟩ =>
    match afterResult, h₁ with
    | ⟨.ident name, _, _⟩ :: afterName, h₁ =>
      match parseArguments size defined afterName with
      | .error e => .error e
      | .ok ⟨operands, afterOperands, h₂⟩ =>
        match parseDictionary size afterOperands with
        | .error e => .error e
        | .ok ⟨attributes, rest, h₃⟩ =>
          match result with
          | some r =>
            if r ∈ defined then fail size rest (.redefinedValue r)
            else
              .ok ⟨{ name, result := some r, operands, attributes }, rest,
                by simp at h₁; omega⟩
          | none => .ok ⟨{ name, operands, attributes }, rest, by simp at h₁; omega⟩
    | ts, _ => fail size ts (.expectedOperation (first? ts))

/-- Operations that were read, and all values defined so far. -/
structure Block where
  ops : Forest Operation
  defined : List String

/-- The values defined after an operation. -/
def define (op : Operation) (defined : List String) : List String :=
  match op.result with
  | some r => r :: defined
  | none => defined

/-- Reads operations (`parse_block`): within braces up to the closing brace, which is included, and
otherwise up to the end. -/
def parseBlock (size : Nat) (inBraces : Bool) (defined : List String) (ts : List Located) :
    Except ParseError (Optionally Block ts.length) :=
  if inBraces ∧ first? ts = some (.mark .rightBrace) then
    .ok ⟨⟨.nil, defined⟩, ts.tail, by simp⟩
  else if ts = [] then
    if inBraces then fail size ts .unterminatedRegion
    else .ok ⟨⟨.nil, defined⟩, ts, Nat.le_refl _⟩
  else
    match parseOperation size defined ts with
    | .error e => .error e
    | .ok ⟨op, afterOp, h₁⟩ =>
      if first? afterOp = some (.mark .leftBrace) then
        have : afterOp.tail.length < ts.length := by simp; omega
        match parseBlock size true (define op defined) afterOp.tail with
        | .error e => .error e
        | .ok ⟨inner, afterRegion, h₂⟩ =>
          match parseBlock size inBraces inner.defined afterRegion with
          | .error e => .error e
          | .ok ⟨later, rest, h₃⟩ =>
            .ok ⟨⟨.cons { op with hasRegion := true } inner.ops later.ops, later.defined⟩,
              rest, by omega⟩
      else
        match parseBlock size inBraces (define op defined) afterOp with
        | .error e => .error e
        | .ok ⟨later, rest, h₂⟩ =>
          .ok ⟨⟨.cons op .nil later.ops, later.defined⟩, rest, by omega⟩
termination_by ts.length

/-- The attributes and operations of a token list, in a source of `size` bytes (`parse_module`). -/
def parseTokens (size : Nat) (ts : List Located) :
    Except ParseError (Dictionary × Forest Operation) :=
  if first? ts = some (.ident "module") then
    match parseDictionary size ts.tail with
    | .error e => .error e
    | .ok ⟨attributes, afterAttributes, _⟩ =>
      match expect size .leftBrace afterAttributes with
      | .error e => .error e
      | .ok ⟨_, afterBrace, _⟩ =>
        match parseBlock size true [] afterBrace with
        | .error e => .error e
        | .ok ⟨block, rest, _⟩ =>
          if rest = [] then .ok (attributes, block.ops)
          else fail size rest (.trailing (first? rest))
  else
    match parseBlock size false [] ts with
    | .error e => .error e
    | .ok ⟨block, _, _⟩ => .ok (.empty, block.ops)

end Source

/-- A forest with its nodes numbered in pre-order from `next` on. -/
def Forest.number {α : Type} (next : Nat) : Forest α → Forest Nat
  | .nil => .nil
  | .cons _ children rest =>
    .cons next (children.number (next + 1)) (rest.number (next + 1 + children.size))

/-- The program of given operations, created in pre-order (in `parse_op`). -/
def Program.ofForest (attributes : Dictionary) (ops : Forest Operation) : Program where
  slots := (ops.preorder.map fun op => { op }).toArray
  body := ops.number 0
  attributes := attributes

namespace Source

/-- The attributes and operations that a source text describes. -/
def parseContents (source : String) : Except CompileError (Dictionary × Forest Operation) :=
  match tokenize source with
  | .error e => .error (.lexer e)
  | .ok tokens =>
    match parseTokens source.utf8ByteSize tokens with
    | .error e => .error (.parse e)
    | .ok contents => .ok contents

/-- The program of a source text (`parse_module`). -/
def parse (source : String) : Except CompileError Program :=
  (parseContents source).map fun (attributes, ops) => .ofForest attributes ops

end Source

end TileFlow
