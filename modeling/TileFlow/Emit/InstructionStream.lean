import TileFlow.Error
import TileFlow.Program.Basic
import TileFlow.Text.Hex

/-!
# The instruction stream

The runtime sequence of a program as words for the control processor: a header, the number of
instructions, and each instruction as an opcode word and its payload.

## Main definitions

* `Instruction`: an instruction with its fields.
* `Instruction.ofOp`: the instruction that an operation describes.
* `Instruction.words`: how an instruction is encoded.
* `Program.instructionWords`: the stream of a program.
* `renderWords`: the stream as text.
-/

namespace TileFlow

/-- An instruction of the control processor (in `encode`). -/
inductive Instruction where
  | write32 (column row address value : UInt32)
  | writeDescriptor (column id length offset argument : UInt32)
  | addressPatch (address argument offset : UInt32)
  | sync (column row direction channel columns rows : UInt32)
  deriving DecidableEq, Repr

namespace Instruction

/-- A field of an operation as a word (`field`). -/
def field (op : Operation) (value : Option Int) (what : String) :
    Except EmitError UInt32 :=
  match value with
  | none => .error (.missingField op.name what)
  | some n =>
    if 0 ≤ n ∧ n < 0x100000000 then .ok (UInt32.ofNat n.toNat)
    else .error (.fieldOutOfRange op.name what n)

/-- The instruction that an operation describes (in `encode`). -/
def ofOp (op : Operation) : Except EmitError Instruction :=
  match op.name with
  | "aiex.ipu.write32" => do
    let column ← field op (op.operandInt? 0) "column"
    let row ← field op (op.operandInt? 1) "row"
    let address ← field op (op.intAttr? "address") "address"
    let value ← field op (op.intAttr? "value") "value"
    pure (.write32 column row address value)
  | "aiex.ipu.writebd_shimtile" => do
    let column ← field op (op.operandInt? 0) "column"
    let id ← field op (op.operandInt? 1) "bd_id"
    let length ← field op (op.intAttr? "buffer_length") "buffer_length"
    let offset ← field op (op.intAttr? "buffer_offset") "buffer_offset"
    let argument ← field op (op.intAttr? "arg_idx") "arg_idx"
    pure (.writeDescriptor column id length offset argument)
  | "aiex.ipu.address_patch" => do
    let address ← field op (op.operandInt? 0) "address"
    let argument ← field op (op.operandInt? 1) "arg_idx"
    let offset ← field op (op.operandInt? 2) "offset"
    pure (.addressPatch address argument offset)
  | "aiex.ipu.sync" => do
    let column ← field op (op.operandInt? 0) "column"
    let row ← field op (op.operandInt? 1) "row"
    let direction ← field op (op.operandInt? 2) "direction"
    let channel ← field op (op.operandInt? 3) "channel"
    let columns ← field op (op.operandInt? 4) "column_num"
    let rows ← field op (op.operandInt? 5) "row_num"
    pure (.sync column row direction channel columns rows)
  | "aiex.ipu.dma_memcpy_nd" => .error (.transferLeft op.name)
  | other => .error (.noEncoding other)

/-- An opcode word (`opcode`): the opcode in the top byte, and the low bytes of a column and a row.
-/
def opcodeWord (code column row : UInt32) : UInt32 :=
  code <<< 24 ||| (column &&& 0xFF) <<< 16 ||| (row &&& 0xFF) <<< 8

/-- The words of an instruction (`encode`). -/
def words : Instruction → List UInt32
  | write32 column row address value => [opcodeWord 0x02 column row, address, value]
  | writeDescriptor column id length offset argument =>
    [opcodeWord 0x06 column 0, id, length, offset, argument]
  | addressPatch address argument offset => [opcodeWord 0x04 0 0, address, argument, offset]
  | sync column row direction channel columns rows =>
    [opcodeWord 0x03 0 0, column <<< 16 ||| row <<< 8 ||| direction,
      channel <<< 16 ||| columns <<< 8 ||| rows]

end Instruction

/-- The first word of every stream, which holds its version (`HEADER`). -/
def streamHeader : UInt32 := 0x06030100

/-- Whether an operation belongs to the runtime sequence. -/
def Operation.isInstruction (op : Operation) : Bool :=
  op.name.startsWith "aiex.ipu."

/-- The operations of the runtime sequence, in program order. -/
def Program.runtimeOps (p : Program) : List Operation :=
  (p.walk.map p.op).filter (·.isInstruction)

/-- The instruction stream of a program (`translate_to_ipu`). -/
def Program.instructionWords (p : Program) : Except CompileError (List UInt32) :=
  match p.runtimeOps.mapM Instruction.ofOp with
  | .error e => .error (.emission "ipu" e)
  | .ok instructions =>
    .ok (streamHeader :: UInt32.ofNat p.runtimeOps.length ::
      instructions.flatMap Instruction.words)

/-- Words in hexadecimal, one a line (`render_ipu_words`). -/
def renderWords (words : List UInt32) : String :=
  String.join (words.map fun w => Text.hexPadded 8 w.toNat ++ "\n")

end TileFlow
