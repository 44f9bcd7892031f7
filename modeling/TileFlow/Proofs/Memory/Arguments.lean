import TileFlow.Proofs.Emit.InstructionStream
import TileFlow.Proofs.Memory.Transfer
import TileFlow.Proofs.Package.Sizes

/-!
# The stream refers to declared host buffers

Two instructions of a transfer hold the number of a host buffer: the write of a buffer descriptor
and the patch of its address. The stage that makes them takes the number of the transfer, or zero,
and the package declares buffers up to the largest number that a transfer has, and at least one. So
a number that reaches the stream, where a negative or a too large one cannot be written, is that of
a declared buffer.

## Main definitions

* `Operation.bufferArgument?`, `Record.argument?`: the number of a host buffer in an instruction,
  and in its record.
* `EditRule.transfersOf`: edits that make instructions for the transfers of a program.

## Main results

* `lowerTransfers_arguments`: every instruction that is made has the number of a transfer.
* `instructionWords_arguments`: every number in the stream is below the number of declared buffers.
-/

namespace TileFlow

open TileFlow.Action

variable {p q : Program} {transfer id : OpId}

/-! ### Numbers of host buffers -/

/-- The names of the instructions that refer to a host buffer. -/
def bufferNames : List String :=
  ["aiex.ipu.writebd_shimtile", "aiex.ipu.address_patch"]

/-- The number of the host buffer that an instruction refers to. -/
def Operation.bufferArgument? (op : Operation) : Option Int :=
  match op.name with
  | "aiex.ipu.writebd_shimtile" => op.intAttr? "arg_idx"
  | "aiex.ipu.address_patch" => op.operandInt? 1
  | _ => none

/-- The number of the host buffer of a transfer, which is the first one if nothing is said. -/
def Operation.transferArgument (op : Operation) : Int :=
  (op.intAttr? "arg_idx").getD 0

/-- The word of a record that holds the number of a host buffer. -/
def Record.argument? (r : Record) : Option UInt32 :=
  match r.opcode with
  | 4 => r.payload[1]?
  | 6 => r.payload[3]?
  | _ => none

/-- The buffer argument is read off the header. -/
theorem Operation.SameHeader.bufferArgument? {a b : Operation} (h : a.SameHeader b) :
    b.bufferArgument? = a.bufferArgument? := by
  rw [Operation.bufferArgument?, Operation.bufferArgument?, h.name, h.intAttr?,
    Operation.operandInt?,
    Operation.operandInt?, h.operands]

/-- The record of an instruction holds the number of its host buffer. -/
theorem Instruction.argument_record {op : Operation} {i : Instruction} (h : i.Describes op)
    (hname : op.name ∈ bufferNames) :
    ∃ w, i.record.argument? = some w ∧ op.bufferArgument? = some (w.toNat : Int) := by
  rw [Record.argument?, opcode_record, Operation.bufferArgument?]
  cases i with
  | write32 => exact absurd (h.1 ▸ hname) (by decide)
  | sync => exact absurd (h.1 ▸ hname) (by decide)
  | writeDescriptor column id length offset argument =>
      obtain ⟨hname, -, -, -, -, hargument⟩ := h
      rw [hname]
      exact ⟨argument, rfl, hargument⟩
  | addressPatch address argument offset =>
      obtain ⟨hname, -, hargument, -⟩ := h
      rw [hname]
      exact ⟨argument, rfl, hargument⟩

/-- Both instructions have the number of the transfer that they are made for. -/
theorem TransferShape.bufferArgument {shape : TransferShape} {op : Operation}
    (h : op ∈ shape.instructions) : ∀ n, op.bufferArgument? = some n → n = shape.argument := by
  intro n hn
  rw [instructions] at h
  simp only [List.mem_cons, List.not_mem_nil, or_false] at h
  rcases h with rfl | rfl | rfl
  · change Operation.intAttr? _ "arg_idx" = some n at hn
    rw [Operation.intAttr?, Operation.attr?, Dictionary.get?_ofList] at hn
    exact (Option.some.inj hn).symm
  · exact (Option.some.inj hn).symm
  · cases hn

/-- There is a host buffer for each transfer. -/
theorem Program.transferArgument_lt (h : transfer ∈ p.findAll transferName) :
    (p.op transfer).transferArgument < p.bufferArgs := by
  rw [Operation.transferArgument]
  rcases hargument : (p.op transfer).intAttr? "arg_idx" with _ | n
  · exact Int.natCast_pos.2 p.bufferArgs_pos
  · exact (bufferArgs_le_iff p.bufferArgs_pos).1 (Nat.le_refl _) transfer h n hargument

/-! ### The stage -/

/-- Instructions are created that refer to the host buffers of transfers of a program, and transfers
are erased. -/
def EditRule.transfersOf (p : Program) : EditRule where
  creates _ _ op := op.name ∈ instructionNames ∧ ∃ transfer ∈ p.findAll transferName,
    ∀ n, op.bufferArgument? = some n → n = (p.op transfer).transferArgument
  changes _ _ _ := False
  erases q id := (q.op id).is transferName = true

/-- The instructions made from transfers, by name. -/
theorem EditRule.transfersOf_names (p : Program) : (transfersOf p).Names instructionNames where
  creates _ _ _ hop := hop.1
  changes _ _ _ hop := hop.elim

/-- Making instructions from transfers leaves devices alone. -/
theorem EditRule.transfersOf_sparesDevices (p : Program) : (transfersOf p).SparesDevices where
  creates _ _ _ hop := Operation.not_is_of_mem hop.1 (by decide)
  changes _ _ _ hop := hop.elim
  erases _ _ hop := Operation.not_is_of_is hop (by decide)

/-- The instructions that the stage makes refer to the host buffers of the transfers. -/
theorem lowerTransfers_arguments (hp : p.Sound)
    (h : runOn Stage.lowerTransfers.action p = (.ok (), q)) : p.Edits (.transfersOf p) q := by
  change runOn (Stage.onEachDevice lowerTransfers) p = _ at h
  rw [Stage.onEachDevice, get_bind_ok] at h
  refine forM_edits hp h fun device hdevice r s hr hpr hrun => ?_
  rw [lowerTransfers, get_bind_ok] at hrun
  refine forM_edits hr hrun fun x hx t u ht hrt hround => ?_
  -- The transfers of the loop are transfers of the program that the stage started from.
  obtain ⟨hin, his⟩ := List.mem_filter.1 hx
  have hwalk : x ∈ r.walk := hr.mem_walk_of_walkIn (Program.mem_walk_of_mem_devices
    ((hpr.mem_devices (EditRule.transfersOf_sparesDevices p) hp).2 hdevice)) hin
  obtain ⟨hlt, hname⟩ := hpr.old_of_name
    ((EditRule.transfersOf_names p).keeps_ne (by decide)) hp (hr.created x hwalk)
    (beq_iff_eq.1 his)
  have hmem : x ∈ p.findAll transferName :=
    List.mem_filter.2 ⟨(hpr.evolves hp).walk x hwalk hlt, beq_iff_eq.2 hname⟩
  have hsame : (p.op x).SameHeader (t.op x) :=
    (hpr.trans hrt).sameHeader hp (fun _ _ _ hop => hop) hlt
  obtain ⟨shape, hread, rfl⟩ := lowerTransfer_ok hround
  have hargument : shape.argument = (p.op x).transferArgument := by
    rw [hread.argument, hsame.intAttr?, Operation.transferArgument]
  have hputs : t.Edits (.transfersOf p) (t.putAll x shape.instructions) :=
    Program.putAll_edits (fun op hop _ _ => ⟨(TransferShape.mem_instructions hop).1, x, hmem,
      fun n hn => (TransferShape.bufferArgument hop n hn).trans hargument⟩)
      fun op hop => (TransferShape.mem_instructions hop).2
  have hltt := Nat.lt_of_lt_of_le hlt ((hpr.trans hrt).size_le hp)
  refine hputs.trans (.single (.erase x (Nat.lt_of_lt_of_le hltt (hputs.size_le ht)) ?_))
  exact ((hputs.sameHeader ht (fun _ _ _ hop => hop) hltt).is _).trans
    ((hsame.is _).trans (beq_iff_eq.2 hname))

/-- The buffer argument of a new instruction is that of a transfer. -/
theorem Program.Edits.bufferArgument (hp : p.Sound) (h : p.Edits (.transfersOf p) q)
    (hid : id < q.slots.size) (hnew : p.slots.size ≤ id) {n : Int}
    (hn : (q.op id).bufferArgument? = some n) :
    ∃ transfer ∈ p.findAll transferName, n = (p.op transfer).transferArgument :=
  h.forall_op (K := fun id op => p.slots.size ≤ id → ∀ n, op.bufferArgument? = some n →
      ∃ transfer ∈ p.findAll transferName, n = (p.op transfer).transferArgument) hp
    (fun _ _ _ hab hK hge n hn => hK hge n (hab.bufferArgument? ▸ hn))
    (fun _ _ _ _ _ hop _ n hn => by
      obtain ⟨-, transfer, hmem, hargument⟩ := hop
      exact ⟨transfer, hmem, hargument n hn⟩)
    (fun _ _ _ _ hop => hop.elim)
    (fun _ hlt hge => absurd hlt (Nat.not_lt.2 hge)) id hid hnew n hn

/-! ### The stream -/

/-- The places of the operations of the runtime sequence, in program order. -/
def Program.runtimeIds (p : Program) : List OpId :=
  p.walk.filter fun id => (p.op id).isInstruction

/-- The operations of the runtime sequence, by their identifiers. -/
theorem Program.runtimeOps_eq_map (p : Program) : p.runtimeOps = p.runtimeIds.map p.op :=
  List.filter_map

/-- **Every host buffer in the stream is declared.** When the transfers of a program are replaced by
instructions and the result is written as a stream, every record of a new instruction for a buffer
descriptor or its address holds the number of a transfer of the program, and this number is below
the number of host buffers that the package declares for the program. -/
theorem instructionWords_arguments {words : List UInt32} (hp : p.Sound)
    (hstage : Stage.lowerTransfers.run p = (.ok (), q)) (h : q.instructionWords = .ok words) :
    ∃ count rest records, words = streamHeader :: count :: rest ∧
      splitRecords rest = some records ∧
      List.Forall₂ (fun id (r : Record) => r.Carries (q.op id) ∧
        (p.slots.size ≤ id → (q.op id).name ∈ bufferNames →
          ∃ w, r.argument? = some w ∧ w.toNat < p.bufferArgs ∧
            ∃ transfer ∈ p.findAll transferName, w.toNat = (p.op transfer).transferArgument))
        q.runtimeIds records := by
  have hrun : runOn Stage.lowerTransfers.action p = (.ok (), q) := Stage.run_eq_ok_iff.1 hstage
  have hedits := lowerTransfers_arguments hp hrun
  obtain ⟨instructions, hall, rfl⟩ := Program.instructionWords_eq_ok_iff.1 h
  refine ⟨_, _, instructions.map Instruction.record, rfl, splitRecords_flatMap ?_, ?_⟩
  · intro r hr
    obtain ⟨i, -, rfl⟩ := List.mem_map.1 hr
    exact i.wellFormed_record
  · rw [Program.runtimeOps_eq_map, List.forall₂_map_left_iff] at hall
    have hwalk : ∀ id ∈ q.runtimeIds, id < q.slots.size := fun id hid =>
      (hedits.sound hp).created id (List.mem_filter.1 hid).1
    rw [List.forall₂_map_right_iff]
    refine ((List.forall₂_and_left _ _).2 ⟨hwalk, hall⟩).imp fun id i hi => ?_
    obtain ⟨hlt, hdescribes⟩ := hi
    refine ⟨Instruction.carries_record hdescribes, fun hnew hname => ?_⟩
    obtain ⟨w, hw, hargument⟩ := Instruction.argument_record hdescribes hname
    obtain ⟨transfer, hmem, heq⟩ := hedits.bufferArgument hp hlt hnew hargument
    refine ⟨w, hw, ?_, transfer, hmem, heq⟩
    have := Program.transferArgument_lt hmem
    omega

/-- A program whose transfers use host buffers 2 and, without a number, 0. -/
def transferSource : String :=
  "aie.device(ipu) \x7b aie.shim_dma_allocation(@in, MM2S, 0, 0)\n" ++
  "func.func(@sequence) \x7b aiex.ipu.dma_memcpy_nd(@in) \x7barg_idx = 2, length = 64\x7d\n" ++
  "aiex.ipu.dma_memcpy_nd(@in) \x7bid = 1, length = 32\x7d \x7d \x7d"

/-- Three host buffers are declared, and the stream refers to the last and the first of them. -/
theorem instructionWords_arguments_two : ∃ p q words, p.Sound ∧
    Stage.lowerTransfers.run p = (.ok (), q) ∧ q.instructionWords = .ok words ∧ p.bufferArgs = 3 ∧
    (splitRecords (words.drop 2)).map (fun l => l.map Record.argument?) =
      some [some 2, some 2, none, some 0, some 0, none] ∧
    ∃ count rest records, words = streamHeader :: count :: rest ∧
      splitRecords rest = some records ∧
      List.Forall₂ (fun id (r : Record) => r.Carries (q.op id) ∧
        (p.slots.size ≤ id → (q.op id).name ∈ bufferNames →
          ∃ w, r.argument? = some w ∧ w.toNat < p.bufferArgs ∧
            ∃ transfer ∈ p.findAll transferName, w.toNat = (p.op transfer).transferArgument))
        q.runtimeIds records := by
  have hsource : ∃ p, Source.parse transferSource = .ok p ∧ p.bufferArgs = 3 ∧
      (Stage.lowerTransfers.run p).1.toOption = some () ∧
      (Stage.lowerTransfers.run p).2.instructionWords.toOption.any (fun words =>
        (splitRecords (words.drop 2)).map (fun l => l.map Record.argument?) =
          some [some 2, some 2, none, some 0, some 0, none]) = true :=
    exists_ok_of_any (by decide +kernel)
  obtain ⟨p, hparse, hdeclared, hrun, hwords⟩ := hsource
  obtain ⟨words, hwords, hrecords⟩ := exists_ok_of_any hwords
  have hp := (Source.parse_ok hparse).1
  have hrun := Stage.run_eq_ok hrun
  exact ⟨p, _, words, hp, hrun, hwords, hdeclared, hrecords,
    instructionWords_arguments hp hrun hwords⟩

end TileFlow
