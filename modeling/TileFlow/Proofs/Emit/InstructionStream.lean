import Mathlib.Algebra.Group.Nat.Defs
import TileFlow.Emit.InstructionStream
import TileFlow.Proofs.Stage.Pipeline
import TileFlow.Source.Parser
import TileFlow.Text.Split

/-!
# Reading the instruction stream

Nothing but the instructions themselves says where one of them ends: the top byte of the first
word of each tells how many words follow. A reader that knows these lengths cuts the stream into
records, and each of them carries the fields of its operation that have a word of their own.

## Main definitions

* `Record`, `splitRecords`: the records of a stream, by the opcodes in it.
* `Operation.opcode?`, `Operation.wordFields`: what the record of an operation has to carry.
* `Record.Carries`: a record is that of an operation.
* `readWords`: the words of a text with one hexadecimal numeral on each line.

## Main results

* `Instruction.ofOp_eq_ok_iff`: an operation is an instruction only if every field fits a word.
* `readWords_renderWords`: the text of a stream has the same words.
* `instructionWords_records`: a stream is split into the records of its operations.
-/

namespace TileFlow

/-! ### Records -/

/-- The number in some bits of a word. -/
def bits (low width : Nat) (w : UInt32) : Nat :=
  w.toNat / 2 ^ low % 2 ^ width

/-- One instruction in a stream: its first word and its payload. -/
structure Record where
  head : UInt32
  payload : List UInt32
  deriving DecidableEq

/-- The opcode of a record is in the top byte of its first word. -/
def Record.opcode (r : Record) : Nat :=
  bits 24 8 r.head

/-- The number of words that follow a first word with an opcode. -/
def payloadLength? : Nat → Option Nat
  | 2 => some 2
  | 3 => some 2
  | 4 => some 3
  | 6 => some 4
  | _ => none

/-- The records of a stream: each first word says where the next one is. -/
def splitRecords : List UInt32 → Option (List Record)
  | [] => some []
  | w :: rest =>
    match payloadLength? (bits 24 8 w) with
    | none => none
    | some n =>
      if n ≤ rest.length then
        (splitRecords (rest.drop n)).map (Record.mk w (rest.take n) :: ·)
      else none
  termination_by words => words.length
  decreasing_by
    rw [List.length_drop, List.length_cons]
    exact Nat.lt_succ_of_le (Nat.sub_le _ _)

/-- The words of a record. -/
def Record.words (r : Record) : List UInt32 :=
  r.head :: r.payload

/-- A record whose payload is as long as its opcode says. -/
def Record.WellFormed (r : Record) : Prop :=
  payloadLength? r.opcode = some r.payload.length

instance (r : Record) : Decidable r.WellFormed :=
  inferInstanceAs (Decidable (_ = _))

/-- The words of records are split into these records. -/
theorem splitRecords_flatMap {records : List Record} (h : ∀ r ∈ records, r.WellFormed) :
    splitRecords (records.flatMap Record.words) = some records := by
  induction records with
  | nil => simp [splitRecords]
  | cons r records ih =>
      rw [List.forall_mem_cons] at h
      obtain ⟨hr, hrest⟩ := h
      have hlength : payloadLength? (bits 24 8 r.head) = some r.payload.length := hr
      rw [List.flatMap_cons, Record.words, List.cons_append, splitRecords, hlength]
      simp [ih hrest]

/-! ### Instructions and the operations that describe them -/

/-- The opcode of the instruction that an operation describes. -/
def Operation.opcode? (op : Operation) : Option Nat :=
  match op.name with
  | "aiex.ipu.write32" => some 2
  | "aiex.ipu.sync" => some 3
  | "aiex.ipu.address_patch" => some 4
  | "aiex.ipu.writebd_shimtile" => some 6
  | _ => none

/-- The integers of an operation that have a word of their own, in the order of these words. -/
def Operation.wordFields (op : Operation) : List (Option Int) :=
  match op.name with
  | "aiex.ipu.write32" => [op.intAttr? "address", op.intAttr? "value"]
  | "aiex.ipu.writebd_shimtile" =>
    [op.operandInt? 1, op.intAttr? "buffer_length", op.intAttr? "buffer_offset",
      op.intAttr? "arg_idx"]
  | "aiex.ipu.address_patch" => [op.operandInt? 0, op.operandInt? 1, op.operandInt? 2]
  | _ => []

/-- A word as the integer of a field. -/
def asField (w : UInt32) : Option Int :=
  some w.toNat

/-- A record is that of an operation: it has its opcode, and the payload starts with the fields
that have a word of their own. -/
structure Record.Carries (r : Record) (op : Operation) : Prop where
  opcode : op.opcode? = some r.opcode
  wordFields : op.wordFields <+: r.payload.map asField

/-- An operation is written as an instruction: each field is there, and is an integer that fits
a word. -/
def Instruction.Describes (op : Operation) : Instruction → Prop
  | .write32 column row address value =>
    op.name = "aiex.ipu.write32" ∧ op.operandInt? 0 = asField column ∧
      op.operandInt? 1 = asField row ∧ op.intAttr? "address" = asField address ∧
      op.intAttr? "value" = asField value
  | .writeDescriptor column id length offset argument =>
    op.name = "aiex.ipu.writebd_shimtile" ∧ op.operandInt? 0 = asField column ∧
      op.operandInt? 1 = asField id ∧ op.intAttr? "buffer_length" = asField length ∧
      op.intAttr? "buffer_offset" = asField offset ∧ op.intAttr? "arg_idx" = asField argument
  | .addressPatch address argument offset =>
    op.name = "aiex.ipu.address_patch" ∧ op.operandInt? 0 = asField address ∧
      op.operandInt? 1 = asField argument ∧ op.operandInt? 2 = asField offset
  | .sync column row direction channel columns rows =>
    op.name = "aiex.ipu.sync" ∧ op.operandInt? 0 = asField column ∧
      op.operandInt? 1 = asField row ∧ op.operandInt? 2 = asField direction ∧
      op.operandInt? 3 = asField channel ∧ op.operandInt? 4 = asField columns ∧
      op.operandInt? 5 = asField rows

/-- A field is read as a word exactly if it is there and fits one. -/
theorem Instruction.field_eq_ok_iff {op : Operation} {value : Option Int} {what : String}
    {w : UInt32} : field op value what = .ok w ↔ value = asField w := by
  have hw := w.toNat_lt
  cases value with
  | none => simp [field, asField]
  | some n =>
      rw [field, asField, Option.some.injEq]
      split
      · rename_i hn
        rw [Except.ok.injEq]
        constructor
        · rintro rfl
          rw [UInt32.toNat_ofNat_of_lt' (by simp only [UInt32.size]; omega)]
          omega
        · rintro rfl
          exact UInt32.ofNat_toNat
      · rename_i hn
        constructor
        · intro h
          exact nomatch h
        · rintro rfl
          omega

/-- An operation is an instruction only if all the fields of that instruction are there and fit a
word. -/
theorem Instruction.describes_of_ofOp {op : Operation} {i : Instruction}
    (h : ofOp op = .ok i) : i.Describes op := by
  rw [ofOp] at h
  split at h
  · rename_i hname
    simp only [Except.bind_ok_iff, field_eq_ok_iff] at h
    obtain ⟨column, hcolumn, row, hrow, address, haddress, value, hvalue, h⟩ := h
    cases h
    exact ⟨hname, hcolumn, hrow, haddress, hvalue⟩
  · rename_i hname
    simp only [Except.bind_ok_iff, field_eq_ok_iff] at h
    obtain ⟨column, hcolumn, id, hid, length, hlength, offset, hoffset, argument, hargument, h⟩ := h
    cases h
    exact ⟨hname, hcolumn, hid, hlength, hoffset, hargument⟩
  · rename_i hname
    simp only [Except.bind_ok_iff, field_eq_ok_iff] at h
    obtain ⟨address, haddress, argument, hargument, offset, hoffset, h⟩ := h
    cases h
    exact ⟨hname, haddress, hargument, hoffset⟩
  · rename_i hname
    simp only [Except.bind_ok_iff, field_eq_ok_iff] at h
    obtain ⟨column, hcolumn, row, hrow, direction, hdirection, channel, hchannel, columns,
      hcolumns, rows, hrows, h⟩ := h
    cases h
    exact ⟨hname, hcolumn, hrow, hdirection, hchannel, hcolumns, hrows⟩
  · cases h
  · cases h

/-- Nothing else keeps an operation from being an instruction. -/
theorem Instruction.ofOp_of_describes {op : Operation} {i : Instruction} (h : i.Describes op) :
    ofOp op = .ok i := by
  have read : ∀ {value : Option Int} {w : UInt32} (what : String),
      value = asField w → field op value what = .ok w := fun _ hvalue => field_eq_ok_iff.2 hvalue
  cases i with
  | write32 column row address value =>
      obtain ⟨hname, hcolumn, hrow, haddress, hvalue⟩ := h
      simp only [ofOp, hname, read _ hcolumn, read _ hrow, read _ haddress, read _ hvalue]
      rfl
  | writeDescriptor column id length offset argument =>
      obtain ⟨hname, hcolumn, hid, hlength, hoffset, hargument⟩ := h
      simp only [ofOp, hname, read _ hcolumn, read _ hid, read _ hlength, read _ hoffset,
        read _ hargument]
      rfl
  | addressPatch address argument offset =>
      obtain ⟨hname, haddress, hargument, hoffset⟩ := h
      simp only [ofOp, hname, read _ haddress, read _ hargument, read _ hoffset]
      rfl
  | sync column row direction channel columns rows =>
      obtain ⟨hname, hcolumn, hrow, hdirection, hchannel, hcolumns, hrows⟩ := h
      simp only [ofOp, hname, read _ hcolumn, read _ hrow, read _ hdirection, read _ hchannel,
        read _ hcolumns, read _ hrows]
      rfl

/-- An operation is an instruction exactly if all the fields of that instruction are there and
fit a word. -/
theorem Instruction.ofOp_eq_ok_iff {op : Operation} {i : Instruction} :
    ofOp op = .ok i ↔ i.Describes op :=
  ⟨describes_of_ofOp, ofOp_of_describes⟩

/-! ### Words of an instruction -/

/-- Bits put above others do not meet them. -/
theorem toNat_shiftLeft_or {high low : UInt32} (n : Nat) (hn : n < 32)
    (hhigh : high.toNat * 2 ^ n < 2 ^ 32) (hlow : low.toNat < 2 ^ n) :
    (high <<< UInt32.ofNat n ||| low).toNat = high.toNat * 2 ^ n + low.toNat := by
  have hcount : (UInt32.ofNat n).toNat % 32 = n := by
    rw [UInt32.toNat_ofNat_of_lt' (by simp only [UInt32.size]; omega)]
    exact Nat.mod_eq_of_lt hn
  rw [UInt32.toNat_or, UInt32.toNat_shiftLeft, hcount, Nat.shiftLeft_eq, Nat.mod_eq_of_lt hhigh,
    ← Nat.shiftLeft_eq, ← Nat.shiftLeft_add_eq_or_of_lt hlow]

/-- Three numbers in the halves of a word, the lower half cut in two. -/
theorem toNat_packed {high middle low : UInt32} (hhigh : high.toNat < 2 ^ 16)
    (hmiddle : middle.toNat < 2 ^ 8) (hlow : low.toNat < 2 ^ 8) :
    (high <<< 16 ||| middle <<< 8 ||| low).toNat =
      high.toNat * 2 ^ 16 + middle.toNat * 2 ^ 8 + low.toNat := by
  have hbelow : (middle <<< 8 ||| low).toNat = middle.toNat * 2 ^ 8 + low.toNat :=
    toNat_shiftLeft_or 8 (by decide) (by omega) hlow
  have hword : (high <<< 16 ||| (middle <<< 8 ||| low)).toNat =
      high.toNat * 2 ^ 16 + (middle <<< 8 ||| low).toNat :=
    toNat_shiftLeft_or 16 (by decide) (by omega) (by omega)
  rw [UInt32.or_assoc, hword, hbelow]
  omega

/-- The low byte of a word as a remainder. -/
theorem toNat_lowByte (w : UInt32) : (w &&& 0xFF).toNat = w.toNat % 2 ^ 8 := by
  rw [UInt32.toNat_and]
  exact Nat.and_two_pow_sub_one_eq_mod w.toNat 8

/-- An opcode word holds its opcode, and a column and a row without their higher bits. -/
theorem Instruction.toNat_opcodeWord {code column row : UInt32} (hcode : code.toNat < 2 ^ 8) :
    (opcodeWord code column row).toNat =
      code.toNat * 2 ^ 24 + column.toNat % 2 ^ 8 * 2 ^ 16 + row.toNat % 2 ^ 8 * 2 ^ 8 := by
  have hcolumn := toNat_lowByte column
  have hrow := toNat_lowByte row
  have hlow : ((row &&& 0xFF) <<< 8 ||| 0).toNat = (row &&& 0xFF).toNat * 2 ^ 8 + 0 :=
    toNat_shiftLeft_or 8 (by decide) (by omega) (by decide)
  rw [UInt32.or_zero] at hlow
  have hplace : ((column &&& 0xFF) <<< 16 ||| (row &&& 0xFF) <<< 8).toNat =
      (column &&& 0xFF).toNat * 2 ^ 16 + ((row &&& 0xFF) <<< 8).toNat :=
    toNat_shiftLeft_or 16 (by decide) (by omega) (by omega)
  have hword : (code <<< 24 ||| ((column &&& 0xFF) <<< 16 ||| (row &&& 0xFF) <<< 8)).toNat =
      code.toNat * 2 ^ 24 + ((column &&& 0xFF) <<< 16 ||| (row &&& 0xFF) <<< 8).toNat :=
    toNat_shiftLeft_or 24 (by decide) (by omega) (by omega)
  rw [opcodeWord, UInt32.or_assoc, hword, hplace, hlow]
  omega

/-- The record of an instruction. -/
def Instruction.record (i : Instruction) : Record where
  head := i.words.headD 0
  payload := i.words.tail

/-- An instruction and its record have the same words. -/
theorem Instruction.words_record (i : Instruction) : i.record.words = i.words := by
  cases i <;> rfl

/-- The opcode of an instruction. -/
def Instruction.opcode : Instruction → Nat
  | .write32 .. => 2
  | .sync .. => 3
  | .addressPatch .. => 4
  | .writeDescriptor .. => 6

/-- An instruction and its record have the same opcode. -/
theorem Instruction.opcode_record (i : Instruction) : i.record.opcode = i.opcode := by
  have hword : ∀ {code column row : UInt32}, code.toNat < 2 ^ 8 →
      bits 24 8 (opcodeWord code column row) = code.toNat := by
    intro code column row hcode
    rw [bits, toNat_opcodeWord hcode]
    omega
  cases i <;> exact hword (by decide)

/-- The payload of an instruction is as long as its opcode says. -/
theorem Instruction.wellFormed_record (i : Instruction) : i.record.WellFormed := by
  rw [Record.WellFormed, opcode_record]
  cases i <;> rfl

/-- The record of an instruction is that of its operation. -/
theorem Instruction.carries_record {op : Operation} {i : Instruction} (h : i.Describes op) :
    i.record.Carries op := by
  constructor
  · rw [opcode_record, Operation.opcode?]
    cases i <;> rw [h.1] <;> rfl
  · rw [Operation.wordFields]
    cases i with
    | write32 column row address value =>
        obtain ⟨hname, -, -, haddress, hvalue⟩ := h
        rw [hname, haddress, hvalue]
        exact List.prefix_rfl
    | writeDescriptor column id length offset argument =>
        obtain ⟨hname, -, hid, hlength, hoffset, hargument⟩ := h
        rw [hname, hid, hlength, hoffset, hargument]
        exact List.prefix_rfl
    | addressPatch address argument offset =>
        obtain ⟨hname, haddress, hargument, hoffset⟩ := h
        rw [hname, haddress, hargument, hoffset]
        exact List.prefix_rfl
    | sync column row direction channel columns rows =>
        rw [h.1]
        exact List.nil_prefix

/-! ### The text of a stream -/

/-- The word that the characters of a line are the hexadecimal numeral of. -/
def readWord (line : List Char) : Option UInt32 :=
  if line ≠ [] ∧ line.all Source.isHexDigit ∧ Source.numeral 16 line < 2 ^ 32 then
    some (UInt32.ofNat (Source.numeral 16 line))
  else none

/-- The words of a text with one hexadecimal numeral on each line, the last one ended too. -/
def readWords (text : String) : Option (List UInt32) :=
  (Text.splitChars '\n' text.toList).dropLast.mapM readWord

/-- A hexadecimal digit stands for the number that it was made from. -/
theorem Source.digitValue_digitChar {n : Nat} (h : n < 16) :
    digitValue n.digitChar = n ∧ isHexDigit n.digitChar = true ∧ n.digitChar ≠ '\n' := by
  revert n
  decide

/-- One more digit multiplies a numeral by its base. -/
theorem Source.numeral_append (base : Nat) (digits : List Char) (c : Char) :
    numeral base (digits ++ [c]) = numeral base digits * base + digitValue c := by
  simp [numeral]

/-- The hexadecimal digits of a number are read as that number. -/
theorem Source.numeral_hex (n : Nat) :
    numeral 16 (Nat.toDigits 16 n) = n ∧
      ∀ c ∈ Nat.toDigits 16 n, isHexDigit c = true ∧ c ≠ '\n' := by
  induction n using Nat.strongRecOn with
  | _ n ih =>
      rw [Nat.toDigits_eq_if (by decide)]
      split
      · rename_i hn
        obtain ⟨hvalue, hdigit, hline⟩ := digitValue_digitChar hn
        exact ⟨by simp [numeral, hvalue], by simp [hdigit, hline]⟩
      · rename_i hn
        obtain ⟨hvalue, hdigit, hline⟩ := digitValue_digitChar (Nat.mod_lt n (by decide : 0 < 16))
        obtain ⟨hnumeral, hall⟩ := ih (n / 16) (Nat.div_lt_self (by omega) (by decide))
        refine ⟨?_, ?_⟩
        · rw [numeral_append, hnumeral, hvalue, Nat.div_add_mod']
        · intro c hc
          rcases List.mem_append.1 hc with hc | hc
          · exact hall c hc
          · obtain rfl := List.mem_singleton.1 hc
            exact ⟨hdigit, hline⟩

/-- Leading zeros do not change a number. -/
theorem Source.numeral_replicate_zero (base n : Nat) (digits : List Char) :
    numeral base (List.replicate n '0' ++ digits) = numeral base digits := by
  have hzero : (List.replicate n '0').foldl (fun n c => n * base + digitValue c) 0 = 0 := by
    induction n with
    | zero => rfl
    | succ n ih =>
        have hstart : 0 * base + digitValue '0' = 0 := by
          rw [Nat.zero_mul]
          rfl
        rw [List.replicate_succ, List.foldl_cons, hstart, ih]
  rw [numeral, List.foldl_append, hzero, numeral]

/-- A line of the text of a stream is read as its word, and is a single line. -/
theorem readWord_hexPadded (w : UInt32) :
    readWord (Text.hexPadded 8 w.toNat).toList = some w ∧
      '\n' ∉ (Text.hexPadded 8 w.toNat).toList := by
  obtain ⟨hnumeral, hall⟩ := Source.numeral_hex w.toNat
  have hlist : (Text.hexPadded 8 w.toNat).toList =
      List.replicate (8 - (Nat.toDigits 16 w.toNat).length) '0' ++ Nat.toDigits 16 w.toNat := by
    rw [Text.hexPadded, String.toList_ofList]
  have hmem : ∀ c ∈ (Text.hexPadded 8 w.toNat).toList, Source.isHexDigit c = true ∧ c ≠ '\n' := by
    intro c hc
    rw [hlist] at hc
    rcases List.mem_append.1 hc with hc | hc
    · obtain rfl := List.eq_of_mem_replicate hc
      exact ⟨rfl, by decide⟩
    · exact hall c hc
  have hvalue : Source.numeral 16 (Text.hexPadded 8 w.toNat).toList = w.toNat := by
    rw [hlist, Source.numeral_replicate_zero, hnumeral]
  refine ⟨?_, fun hc => (hmem _ hc).2 rfl⟩
  rw [readWord, if_pos, hvalue, UInt32.ofNat_toNat]
  refine ⟨?_, List.all_eq_true.2 fun c hc => (hmem c hc).1, ?_⟩
  · rw [hlist]
    simp [Nat.toDigits_ne_nil]
  · rw [hvalue]
    exact w.toNat_lt

/-- Reading the text of a stream gives its words. -/
theorem readWords_renderWords (words : List UInt32) :
    readWords (renderWords words) = some words := by
  have hlines : Text.splitChars '\n' (renderWords words).toList =
      words.map (fun w => (Text.hexPadded 8 w.toNat).toList) ++ [[]] := by
    induction words with
    | nil => rfl
    | cons w words ih =>
        have hline : (renderWords (w :: words)).toList =
            (Text.hexPadded 8 w.toNat).toList ++ '\n' :: (renderWords words).toList := by
          simp [renderWords, String.join_cons]
        rw [hline, Text.splitChars_append (readWord_hexPadded w).2, ih]
        rfl
  rw [readWords, hlines, List.dropLast_concat]
  clear hlines
  induction words with
  | nil => rfl
  | cons w words ih =>
      rw [List.map_cons, List.mapM_cons, (readWord_hexPadded w).1, ih]
      rfl

/-! ### Streams -/

/-- The instructions of a stream are those of the runtime sequence, in its order. -/
theorem Program.instructionWords_eq_ok_iff {p : Program} {words : List UInt32} :
    p.instructionWords = .ok words ↔
      ∃ instructions : List Instruction,
        List.Forall₂ (fun op i => i.Describes op) p.runtimeOps instructions ∧
        words = streamHeader :: UInt32.ofNat p.runtimeOps.length ::
          (instructions.map Instruction.record).flatMap Record.words := by
  have hrecords : ∀ l : List Instruction,
      (l.map Instruction.record).flatMap Record.words = l.flatMap Instruction.words := by
    intro l
    simp only [List.flatMap_map, Instruction.words_record]
  have hencoded : ∀ l : List Instruction, p.runtimeOps.mapM Instruction.ofOp = .ok l ↔
      List.Forall₂ (fun op i => i.Describes op) p.runtimeOps l := by
    intro l
    simp only [Except.mapM_ok_iff, Instruction.ofOp_eq_ok_iff]
  rw [instructionWords]
  constructor
  · intro h
    split at h
    · cases h
    · rename_i instructions heq
      cases h
      exact ⟨instructions, (hencoded _).1 heq, by rw [hrecords]⟩
  · rintro ⟨instructions, hall, rfl⟩
    rw [(hencoded _).2 hall, hrecords]

/-- A stream tells where each of its instructions ends: after the header and the number of
instructions, the opcodes split it into the records of the runtime sequence, in program order.
Its text is read as the same words. -/
theorem instructionWords_records {p : Program} {words : List UInt32}
    (hcount : p.runtimeOps.length < 2 ^ 32) (h : p.instructionWords = .ok words) :
    ∃ count rest records, words = streamHeader :: count :: rest ∧
      count.toNat = p.runtimeOps.length ∧ splitRecords rest = some records ∧
      List.Forall₂ (fun op r => r.Carries op) p.runtimeOps records ∧
      readWords (renderWords words) = some words := by
  obtain ⟨instructions, hall, rfl⟩ := Program.instructionWords_eq_ok_iff.1 h
  refine ⟨_, _, instructions.map Instruction.record, rfl, ?_, ?_, ?_, readWords_renderWords _⟩
  · exact UInt32.toNat_ofNat_of_lt' hcount
  · refine splitRecords_flatMap ?_
    intro r hr
    obtain ⟨i, -, rfl⟩ := List.mem_map.1 hr
    exact i.wellFormed_record
  · rw [List.forall₂_map_right_iff]
    exact hall.imp fun _ _ hop => Instruction.carries_record hop

/-- Instructions of all four kinds at two depths. -/
def instructionSource : String :=
  "func.func(@sequence) \x7b aiex.ipu.write32(1, 2) \x7baddress = 119316, value = 7\x7d\n" ++
  "scf.for \x7b aiex.ipu.writebd_shimtile(0, 3) " ++
  "\x7bbuffer_length = 64, buffer_offset = 8, arg_idx = 1\x7d\n" ++
  "aiex.ipu.address_patch(119300, 1, 8) \x7d\n" ++
  "aiex.ipu.sync(0, 1, 0, 2, 1, 1) \x7d"

/-- The stream of the four instructions, and its records. -/
theorem instructionWords_records_four : ∃ p words, Source.parse instructionSource = .ok p ∧
    p.runtimeOps.length = 4 ∧ p.instructionWords = .ok words ∧ words.length = 17 ∧
    ∃ count rest records, words = streamHeader :: count :: rest ∧
      count.toNat = p.runtimeOps.length ∧ splitRecords rest = some records ∧
      List.Forall₂ (fun op r => r.Carries op) p.runtimeOps records ∧
      readWords (renderWords words) = some words := by
  have hsource : ∃ p, Source.parse instructionSource = .ok p ∧ p.runtimeOps.length = 4 ∧
      p.instructionWords.toOption.any (fun words => decide (words.length = 17)) = true :=
    exists_ok_of_any (by decide +kernel)
  obtain ⟨p, hp, hcount, hwords⟩ := hsource
  obtain ⟨words, hrun, hlength⟩ := exists_ok_of_any hwords
  exact ⟨p, words, hp, hcount, hrun, hlength,
    instructionWords_records (by rw [hcount]; decide) hrun⟩

end TileFlow
