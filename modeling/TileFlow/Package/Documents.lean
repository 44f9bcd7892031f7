import TileFlow.Program.Basic
import TileFlow.Text.Json

/-!
# The documents of a package

A package binds a kernel to the device configuration. Three documents describe it: the kernel
with its arguments, the memories, and the partition of the array.

## Main definitions

* `KernelSpec`: what the documents depend on.
* `Program.bufferArgs`, `Program.columnWidth`: the parts of it that a program decides.
* `KernelSpec.kernels`, `memoryTopology`, `KernelSpec.partition`: the documents.
-/

namespace TileFlow

/-- The largest of some indices plus one, where negative indices count as zero; one if there are
none. -/
def countUpTo (indices : List Int) : Nat :=
  ((indices.map fun i => i.toNat + 1).max?).getD 1

namespace Program

/-- The number of host buffers that the transfers of a program refer to (`buffer_args_of`). -/
def bufferArgs (p : Program) : Nat :=
  countUpTo ((p.findAll "aiex.ipu.dma_memcpy_nd").filterMap fun id => (p.op id).intAttr? "arg_idx")

/-- The number of columns up to the last tile of a program (`column_width_of`). -/
def columnWidth (p : Program) : Nat :=
  countUpTo ((p.findAll "aie.tile").filterMap fun id => (p.op id).operandInt? 0)

end Program

/-- What identifies a kernel in its package, and the sizes that the documents state (`XclbinSpec`).
-/
structure KernelSpec where
  kernelName : String
  instanceName : String
  kernelId : String
  bufferArgs : Nat
  columnWidth : Nat
  deriving DecidableEq, Repr, Inhabited

/-- An argument of a kernel (`KernelArgument`). -/
structure KernelArgument where
  name : String
  /-- The memory that the argument lives in, unless it is a number. -/
  memory : Option String
  type : String
  offset : Nat

/-- The document of an argument. -/
def KernelArgument.document (a : KernelArgument) : Json :=
  let qualifier := if a.memory.isSome then "GLOBAL" else "SCALAR"
  let connection := match a.memory with
    | some memory => [("memory-connection", Json.text memory)]
    | none => []
  .record ([("address-qualifier", .text qualifier)] ++ connection ++
    [("name", .text a.name), ("offset", .text ("0x" ++ Text.hexPadded 2 a.offset)),
      ("type", .text a.type)])

namespace KernelSpec

/-- The arguments of a kernel (`kernel`): the instructions, their number and the host buffers. -/
def arguments (spec : KernelSpec) : List KernelArgument :=
  [⟨"instr", some "SRAM", "char *", 0x00⟩, ⟨"ninstr", none, "uint64_t", 0x08⟩] ++
    (List.range spec.bufferArgs).map fun i =>
      ⟨"bo" ++ toString i, some "HOST", "void*", 0x10 + 8 * i⟩

/-- The document of the kernel (`kernels_json`). -/
def kernels (spec : KernelSpec) : Json :=
  .record [("ps-kernels", .record [("kernels", .list [.record [
    ("arguments", .list (spec.arguments.map (·.document))),
    ("extended-data", .record [("dpu_kernel_id", .text spec.kernelId),
      ("functional", .text "0"), ("subtype", .text "DPU")]),
    ("instances", .list [.record [("name", .text spec.instanceName)]]),
    ("name", .text spec.kernelName),
    ("type", .text "dpu")]])])]

/-- The document of the partition, which refers to the device configuration (`aie_partition_json`).
-/
def partition (spec : KernelSpec) (deviceConfig : String) : Json :=
  .record [("aie_partition", .record [
    ("PDIs", .list [.record [
      ("cdo_groups", .list [.record [
        ("dpu_kernel_ids", .list [.text spec.kernelId]),
        ("name", .text "DPU"),
        ("pdi_id", .text "0x01"),
        ("pre_cdo_groups", .list [.text "0xC1"]),
        ("type", .text "PRIMARY")]]),
      ("file_name", .text deviceConfig),
      ("uuid", .text "00000000-0000-0000-0000-000000000001")]]),
    ("inference_fingerprint", .text "23423"),
    ("name", .text "QoS"),
    ("operations_per_cycle", .text "2048"),
    ("partition", .record [
      ("column_width", .number spec.columnWidth),
      ("start_columns", .list [.number 1])]),
    ("pre_post_fingerprint", .text "12345")])]

end KernelSpec

/-- A memory as the package describes it. -/
def memoryDocument (size tag : String) : Json :=
  .record [("m_base_address", .text "0x4000000"), ("m_sizeKB", .text size), ("m_tag", .text tag),
    ("m_type", .text "MEM_DRAM"), ("m_used", .text "1")]

/-- The document of the memories (`mem_topology_json`). -/
def memoryTopology : Json :=
  .record [("mem_topology", .record [("m_count", .text "2"),
    ("m_mem_data", .list [memoryDocument "0x10000" "HOST", memoryDocument "0xc000" "SRAM"])])]

end TileFlow
