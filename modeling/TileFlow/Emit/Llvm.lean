import TileFlow.Error
import TileFlow.Program.Basic
import TileFlow.Text.CharSet
import TileFlow.Text.Hex

/-!
# Backend code

The functions and globals of a lowered program as text for the backend. The body of a function
is first laid out as a list of lines, labels and instructions, in which loops and conditionals
have become blocks that are linked by branches.

## Main definitions

* `Line`: a label or an instruction.
* `Layout.forest`: the lines of a list of operations.
* `Program.backendText`: the text of a program.
-/

namespace TileFlow

namespace Backend

/-- An operand of an instruction. -/
inductive Operand where
  | int (n : Int)
  | pointer (symbol : String)
  | register (name : String)
  deriving DecidableEq, Repr

/-- The type of an operand. -/
def Operand.type : Operand → String
  | .int _ => "i32"
  | .pointer _ => "ptr"
  | .register _ => "i32"

/-- An operand without its type. -/
def Operand.name : Operand → String
  | .int n => toString n
  | .pointer s => "@" ++ s
  | .register s => "%" ++ s

/-- An operand after its type (`typed`). -/
def Operand.typed (x : Operand) : String :=
  x.type ++ " " ++ x.name

/-- The operand that an attribute stands for (in `typed` and `untyped`). -/
def operandOf (a : Attribute) : Except EmitError Operand :=
  match a with
  | .int n => .ok (.int n)
  | .symbol s => .ok (.pointer s)
  | .value s => .ok (.register s)
  | other => .error (.untypedOperand other.render)

/-- An instruction, or a label that opens a block. Names of results and labels are kept without
their sigil; pointers are kept as they are written. -/
inductive Line where
  | label (name : String)
  | call (result : Option String) (callee : String) (arguments : List Operand)
  | address (result base : String) (index : Operand)
  | load (result pointer : String)
  | store (value : Operand) (pointer : String)
  | constant (result : String) (n : Int)
  | binary (result opcode left right : String)
  | branch (target : String)
  | branchIf (condition target otherwise : String)
  | phi (result first firstBlock next nextBlock : String)
  | lessThan (result left right : String)
  | notZero (result value : String)
  | ret
  deriving DecidableEq, Repr

/-- Operands with their types and commas between them. -/
def arguments (xs : List Operand) : String :=
  commaSeparated (xs.map (·.typed))

/-- The text of a line, without the line break. -/
def Line.render : Line → String
  | .label name => s!"{name}:"
  | .call (some result) callee xs => s!"  %{result} = call i32 @{callee}({arguments xs})"
  | .call none callee xs => s!"  call void @{callee}({arguments xs})"
  | .address result base index =>
    s!"  %{result} = getelementptr inbounds i32, ptr {base}, {index.typed}"
  | .load result pointer => s!"  %{result} = load i32, ptr {pointer}, align 4"
  | .store value pointer => s!"  store {value.typed}, ptr {pointer}, align 4"
  | .constant result n => s!"  %{result} = add i32 0, {n}"
  | .binary result opcode left right => s!"  %{result} = {opcode} i32 {left}, {right}"
  | .branch target => s!"  br label %{target}"
  | .branchIf condition target otherwise =>
    s!"  br i1 %{condition}, label %{target}, label %{otherwise}"
  | .phi result first firstBlock next nextBlock =>
    s!"  %{result} = phi i32 [ {first}, %{firstBlock} ], [ %{next}, %{nextBlock} ]"
  | .lessThan result left right => s!"  %{result} = icmp slt i32 {left}, {right}"
  | .notZero result value => s!"  %{result} = icmp ne i32 {value}, 0"
  | .ret => "  ret void"

/-- The text of lines. -/
def renderLines (lines : List Line) : String :=
  String.join (lines.map fun l => l.render ++ "\n")

/-- The opcode of an operation on two integers (`binary_opcode`). -/
def binaryOpcode? (name : String) : Option String :=
  match name with
  | "llvm.addi" => some "add"
  | "llvm.subi" => some "sub"
  | "llvm.muli" => some "mul"
  | "llvm.andi" => some "and"
  | "llvm.ori" => some "or"
  | "llvm.xori" => some "xor"
  | "llvm.shli" => some "shl"
  | _ => none

/-- Where a layout stands (`FunctionEmitter`): the block that is open, and how many names have been
made. -/
structure Layout where
  block : String := "entry"
  made : Nat := 0
  deriving DecidableEq, Repr

namespace Layout

/-- A new name made from a base (`next_label`). -/
def fresh (s : Layout) (base : String) : String × Layout :=
  (base ++ toString (s.made + 1), { s with made := s.made + 1 })

/-- The error for an operation that has no form in the backend (`unsupported`). -/
def unsupported {α : Type} (op : Operation) : Except EmitError α :=
  .error (.noBackendForm op.name)

/-- A part of an operation whose absence leaves it without a form in the backend. -/
def require {α : Type} (op : Operation) (x : Option α) : Except EmitError α :=
  match x with
  | some a => .ok a
  | none => unsupported op

/-- The pointer to an element of a base, or to the base itself, with the line that computes it
(`address`). -/
def pointer (s : Layout) (base : Attribute) (index : Option Attribute) :
    Except EmitError (String × List Line × Layout) := do
  let base ← operandOf base
  match index with
  | none => pure (base.name, [], s)
  | some index =>
    let (name, s) := s.fresh "gep"
    let index ← operandOf index
    pure ("%" ++ name, [.address name base.name index], s)

/-- The lines of an operation without a region of its own (in `emit_op`). -/
def simple (s : Layout) (op : Operation) : Except EmitError (List Line × Layout) :=
  match op.name with
  | "llvm.call" => do
    let callee ← require op (op.operandSymbol? 0)
    let xs ← (op.operands.drop 1).mapM operandOf
    pure ([.call op.result callee xs], s)
  | "llvm.load" => do
    let result ← require op op.result
    let base ← require op op.operands[0]?
    let (pointer, lines, s) ← s.pointer base op.operands[1]?
    pure (lines ++ [.load result pointer], s)
  | "llvm.store" => do
    let value ← require op op.operands[0]?
    let base ← require op op.operands[1]?
    let (pointer, lines, s) ← s.pointer base op.operands[2]?
    let value ← operandOf value
    pure (lines ++ [.store value pointer], s)
  | "llvm.constant" => do
    let result ← require op op.result
    let n ← require op (op.operandInt? 0)
    pure ([.constant result n], s)
  | "llvm.return" => pure ([.ret], s)
  | name => do
    let opcode ← require op (binaryOpcode? name)
    let result ← require op op.result
    match op.operands with
    | [left, right] =>
      let left ← operandOf left
      let right ← operandOf right
      pure ([.binary result opcode left.name right.name], s)
    | _ => unsupported op

/-- The blocks of a loop around its body: a header with the loop variable and the test, the
body, a latch that steps the variable, and an exit. -/
structure LoopNames where
  name : String
  counter : String
  deriving DecidableEq, Repr

/-- The block of a loop that tests its variable. -/
def LoopNames.header (n : LoopNames) : String := n.name ++ ".header"

/-- The block of a loop that holds its body. -/
def LoopNames.body (n : LoopNames) : String := n.name ++ ".body"

/-- The block of a loop that steps its variable. -/
def LoopNames.latch (n : LoopNames) : String := n.name ++ ".latch"

/-- The block after a loop. -/
def LoopNames.exit (n : LoopNames) : String := n.name ++ ".exit"

/-- The lines of a loop before its body, where `block` is the block it starts in (in `emit_loop`).
-/
def loopStart (n : LoopNames) (block : String) (lower upper : Operand) : List Line :=
  [.branch n.header, .label n.header,
    .phi n.counter lower.name block (n.name ++ ".next") n.latch,
    .lessThan (n.name ++ ".cond") ("%" ++ n.counter) upper.name,
    .branchIf (n.name ++ ".cond") n.body n.exit, .label n.body]

/-- The lines of a loop after its body (in `emit_loop`). -/
def loopEnd (n : LoopNames) (step : Operand) : List Line :=
  [.branch n.latch, .label n.latch,
    .binary (n.name ++ ".next") "add" ("%" ++ n.counter) step.name,
    .branch n.header, .label n.exit]

/-- The lines of a conditional before its body (in `emit_cond`). -/
def conditionalStart (name : String) (condition : Operand) : List Line :=
  [.notZero (name ++ ".flag") condition.name,
    .branchIf (name ++ ".flag") (name ++ ".then") (name ++ ".end"), .label (name ++ ".then")]

/-- The lines of a conditional after its body (in `emit_cond`). -/
def conditionalEnd (name : String) : List Line :=
  [.branch (name ++ ".end"), .label (name ++ ".end")]

/-- The names of a loop, and its bounds and step (`emit_loop`). -/
def openLoop (s : Layout) (op : Operation) :
    Except EmitError (LoopNames × Operand × Operand × Operand × Layout) :=
  match op.operands with
  | [lower, upper, step] => do
    let lower ← operandOf lower
    let upper ← operandOf upper
    let step ← operandOf step
    let (name, s) := s.fresh "loop"
    pure (⟨name, op.result.getD (name ++ ".iv")⟩, lower, upper, step, s)
  | _ => unsupported op

/-- The name of a conditional, and its condition (`emit_cond`). -/
def openConditional (s : Layout) (op : Operation) :
    Except EmitError (String × Operand × Layout) := do
  let condition ← require op op.operands[0]?
  let (name, s) := s.fresh "cond"
  let condition ← operandOf condition
  pure (name, condition, s)

/-- The lines of a list of operations (`emit_region` and `emit_op`). -/
def forest (s : Layout) : Forest Operation → Except EmitError (List Line × Layout)
  | .nil => .ok ([], s)
  | .cons op children rest =>
    if op.is "llvm.loop" then do
      let (names, lower, upper, step, s') ← s.openLoop op
      let (body, inner) ← forest { s' with block := names.body } children
      let (later, last) ← forest { inner with block := names.exit } rest
      pure (loopStart names s.block lower upper ++ body ++ loopEnd names step ++ later, last)
    else if op.is "llvm.cond" then do
      let (name, condition, s') ← s.openConditional op
      let (body, inner) ← forest { s' with block := name ++ ".then" } children
      let (later, last) ← forest { inner with block := name ++ ".end" } rest
      pure (conditionalStart name condition ++ body ++ conditionalEnd name ++ later, last)
    else do
      let (lines, s') ← s.simple op
      let (later, last) ← forest s' rest
      pure (lines ++ later, last)

end Layout

/-- The lines of a function (in `translate_to_llvm_ir`): its entry block, the body, and a return
unless the text of the body ends in one. -/
def functionLines (body : Forest Operation) : Except EmitError (List Line) := do
  let (lines, _) ← Layout.forest {} body
  let terminated := (Text.trimEnd (renderLines lines)).endsWith "ret void"
  pure (.label "entry" :: lines ++ (if terminated then [] else [.ret]))

/-- What is at the top of a lowered program. -/
structure Units where
  /-- The globals, in program order. -/
  globals : List Operation := []
  /-- The symbols and bodies of the functions that are defined, in program order. -/
  defined : List (String × Forest Operation) := []
  /-- The symbols of the functions that are declared. -/
  declared : List String := []

/-- Sorts the operations at the top of a program into globals and functions. -/
def unitsOf : Forest Operation → Except EmitError Units
  | .nil => .ok {}
  | .cons op body rest => do
    let symbol ← Layout.require op (op.operandSymbol? 0)
    let place : Units → Units ←
      if op.is "llvm.global" then pure fun u => { u with globals := op :: u.globals }
      else if op.is "llvm.func" then
        if op.hasRegion then pure fun u => { u with defined := (symbol, body) :: u.defined }
        else pure fun u => { u with declared := symbol :: u.declared }
      else Layout.unsupported op
    let units ← unitsOf rest
    pure (place units)

/-- The signatures of external functions by symbol, in ascending order of the symbols. -/
abbrev Signatures := List (String × String)

/-- Signatures with one more, unless the symbol has one already. -/
def addSignature (symbol signature : String) : Signatures → Signatures
  | [] => [(symbol, signature)]
  | e :: rest =>
    if symbol < e.1 then (symbol, signature) :: e :: rest
    else if symbol = e.1 then e :: rest
    else e :: addSignature symbol signature rest

/-- The signature that a call of a function shows. -/
def signatureOf (op : Operation) (callee : String) : Except EmitError String := do
  let xs ← (op.operands.drop 1).mapM operandOf
  let result := if op.result.isSome then "i32" else "void"
  pure s!"{result} @{callee}({commaSeparated (xs.map (·.type))})"

/-- The signatures of the functions that calls name and that are not defined: the first call
of a function decides. -/
def callSignatures (defined : List String) :
    Signatures → List Operation → Except EmitError Signatures
  | s, [] => .ok s
  | s, op :: rest =>
    match op.operandSymbol? 0 with
    | none => callSignatures defined s rest
    | some callee =>
      if callee ∈ defined ∨ callee ∈ s.map (·.1) then callSignatures defined s rest
      else do
        let signature ← signatureOf op callee
        callSignatures defined (addSignature callee signature s) rest

/-- The text of a global. -/
def globalText (op : Operation) : Except EmitError String := do
  let symbol := (op.operandSymbol? 0).getD ""
  match op.intAttr? "size" with
  | none => .error (.globalWithoutSize symbol)
  | some size =>
    let placed := match op.intAttr? "address" with
      | some address => s!"; @{symbol} placed at {Text.hexAddress address}\n"
      | none => ""
    pure (placed ++ s!"@{symbol} = global [{size} x i8] zeroinitializer, align 16\n")

/-- The text of a function. -/
def functionText (symbol : String) (body : Forest Operation) :
    Except EmitError String := do
  let lines ← functionLines body
  pure (s!"define void @{symbol}() \x7b\n" ++ renderLines lines ++ "\x7d\n\n")

/-- A section of a text, followed by an empty line unless the section has no items. -/
def paragraph (items : List String) : String :=
  if items.isEmpty then "" else String.join items ++ "\n"

end Backend

open Backend in
/-- The backend text of the operations of a program (in `translate_to_llvm_ir`). -/
def backendText (ops : Forest Operation) : Except EmitError String := do
  let units ← unitsOf ops
  let calls := ops.preorder.filter (·.is "llvm.call")
  let called ← callSignatures (units.defined.map (·.1)) [] calls
  let signatures := units.declared.foldl
    (fun s symbol => addSignature symbol s!"void @{symbol}()" s) called
  let globals ← units.globals.mapM globalText
  let functions ← units.defined.mapM fun (symbol, body) => functionText symbol body
  pure ("; ModuleID = 'aie'\nsource_filename = \"aie\"\n\n" ++
    paragraph globals ++
    paragraph (signatures.map fun (_, signature) => s!"declare {signature}\n") ++
    String.join functions)

/-- The backend text of a program (`translate_to_llvm_ir`). -/
def Program.backendText (p : Program) : Except CompileError String :=
  (TileFlow.backendText p.contents).mapError (.emission "llvm-ir")

end TileFlow
