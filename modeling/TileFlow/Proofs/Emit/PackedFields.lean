import Mathlib.Algebra.Group.Int.Defs
import TileFlow.Proofs.Emit.InstructionStream

/-!
# Fields that share a word

Coordinates, directions, channels and counts of an instruction share words with one another. An
opcode word keeps the low byte of a column and of a row. The payload of a synchronization is put
together from whole words, and shows its fields if they fit the bits that each of them has.

## Main definitions

* `BitField`, `Record.read`: where a field lies in a record, and what is read there.
* `Operation.packedFields`: the fields of an operation that share a word, with their places.
* `Record.Packs`: what a record shows of them.

## Main results

* `Instruction.packs_record`: what the record of an instruction shows.
* `Record.fields_eq`: a record belongs to the fields of one instruction, if they fit.
* `instructionWords_packed`: what the records of a stream show.
* `instructionWords_truncates`: instructions on two columns with the same words.
-/

namespace TileFlow

/-! ### Places in a record -/

/-- Where a field lies in a record: its word, its lowest bit and the number of its bits. -/
structure BitField where
  word : Nat
  low : Nat
  width : Nat
  deriving DecidableEq

/-- The number in a place of a record. -/
def Record.read (r : Record) (place : BitField) : Option Int :=
  r.words[place.word]?.map fun w => (bits place.low place.width w : Int)

/-- A field of an operation that shares a word with others. -/
structure PackedField where
  value : Option Int
  place : BitField
  deriving DecidableEq

/-- A field fits the bits that it has. -/
def PackedField.Fits (f : PackedField) : Prop :=
  ∀ n ∈ f.value, n < 2 ^ f.place.width

instance (f : PackedField) : Decidable f.Fits :=
  inferInstanceAs (Decidable (∀ n ∈ f.value, n < 2 ^ f.place.width))

/-- The fields of an operation that share a word. Transfers have no row, and 0 in its place. -/
def Operation.packedFields (op : Operation) : List PackedField :=
  match op.name with
  | "aiex.ipu.write32" => [⟨op.operandInt? 0, ⟨0, 16, 8⟩⟩, ⟨op.operandInt? 1, ⟨0, 8, 8⟩⟩]
  | "aiex.ipu.writebd_shimtile" => [⟨op.operandInt? 0, ⟨0, 16, 8⟩⟩, ⟨some 0, ⟨0, 8, 8⟩⟩]
  | "aiex.ipu.sync" =>
    [⟨op.operandInt? 0, ⟨1, 16, 16⟩⟩, ⟨op.operandInt? 1, ⟨1, 8, 8⟩⟩,
      ⟨op.operandInt? 2, ⟨1, 0, 8⟩⟩, ⟨op.operandInt? 3, ⟨2, 16, 16⟩⟩,
      ⟨op.operandInt? 4, ⟨2, 8, 8⟩⟩, ⟨op.operandInt? 5, ⟨2, 0, 8⟩⟩]
  | _ => []

/-- The fields of an operation, those with a word of their own first. -/
def Operation.fields (op : Operation) : List (Option Int) :=
  op.wordFields ++ op.packedFields.map (·.value)

/-- All the fields of an operation fit the bits that they have. -/
def Operation.FieldsFit (op : Operation) : Prop :=
  ∀ f ∈ op.packedFields, f.Fits

instance (op : Operation) : Decidable op.FieldsFit :=
  inferInstanceAs (Decidable (∀ f ∈ op.packedFields, f.Fits))

/-- What the record of an operation shows of the fields that share a word. -/
structure Record.Packs (r : Record) (op : Operation) : Prop where
  /-- No field is negative or too large for a word. -/
  isWord : ∀ value ∈ op.fields, ∃ w : UInt32, value = asField w
  /-- The opcode word has the low bits of a field. -/
  truncated : ∀ f ∈ op.packedFields, f.place.word = 0 →
    r.read f.place = f.value.map (· % 2 ^ f.place.width)
  /-- A field is read back if it and those in the same word fit their bits. -/
  recovered : ∀ f ∈ op.packedFields,
    (∀ g ∈ op.packedFields, g.place.word = f.place.word → g.Fits) → r.read f.place = f.value

/-! ### Records of instructions -/

/-- The opcode word of a record shows the low bytes of a column and a row. -/
theorem read_opcodeWord {code column row : UInt32} {payload : List UInt32}
    (hcode : code.toNat < 2 ^ 8) :
    Record.read ⟨Instruction.opcodeWord code column row, payload⟩ ⟨0, 16, 8⟩ =
        (asField column).map (· % 2 ^ 8) ∧
      Record.read ⟨Instruction.opcodeWord code column row, payload⟩ ⟨0, 8, 8⟩ =
        (asField row).map (· % 2 ^ 8) := by
  have hword : (Instruction.opcodeWord code column row).toNat =
      code.toNat * 2 ^ 24 + column.toNat % 2 ^ 8 * 2 ^ 16 + row.toNat % 2 ^ 8 * 2 ^ 8 :=
    Instruction.toNat_opcodeWord hcode
  simp only [Record.read, Record.words, List.getElem?_cons_zero, Option.map_some, asField,
    Option.some.injEq, bits, hword]
  omega

/-- A word that fits its bits is below their bound. -/
theorem PackedField.Fits.toNat_lt {w : UInt32} {place : BitField}
    (h : PackedField.Fits ⟨asField w, place⟩) : w.toNat < 2 ^ place.width := by
  exact_mod_cast h w.toNat rfl

/-- A word put together from three fields that fit shows each of them. -/
theorem read_packed {r : Record} {k : Nat} {high middle low : UInt32}
    (hk : r.words[k]? = some (high <<< 16 ||| middle <<< 8 ||| low))
    (hhigh : PackedField.Fits ⟨asField high, ⟨k, 16, 16⟩⟩)
    (hmiddle : PackedField.Fits ⟨asField middle, ⟨k, 8, 8⟩⟩)
    (hlow : PackedField.Fits ⟨asField low, ⟨k, 0, 8⟩⟩) :
    r.read ⟨k, 16, 16⟩ = asField high ∧ r.read ⟨k, 8, 8⟩ = asField middle ∧
      r.read ⟨k, 0, 8⟩ = asField low := by
  have hhigh : high.toNat < 2 ^ 16 := hhigh.toNat_lt
  have hmiddle : middle.toNat < 2 ^ 8 := hmiddle.toNat_lt
  have hlow : low.toNat < 2 ^ 8 := hlow.toNat_lt
  simp only [Record.read, hk, Option.map_some, asField, Option.some.injEq, bits,
    toNat_packed hhigh hmiddle hlow]
  omega

/-- The low bits of a field that fits are the field. -/
theorem PackedField.Fits.mod {f : PackedField} (h : f.Fits)
    (hword : ∃ w : UInt32, f.value = asField w) :
    f.value.map (· % 2 ^ f.place.width) = f.value := by
  obtain ⟨w, hw⟩ := hword
  have hlt := h w.toNat hw
  rw [hw, asField, Option.map_some, Int.emod_eq_of_lt (by omega) hlt]

/-- The value of a packed field is a field of the operation. -/
theorem Operation.value_mem_fields {op : Operation} {f : PackedField} (h : f ∈ op.packedFields) :
    f.value ∈ op.fields :=
  List.mem_append_right _ (List.mem_map_of_mem h)

/-- The fields of an operation are words when it describes an instruction. -/
theorem Instruction.Describes.isWord {op : Operation} {i : Instruction} (h : i.Describes op) :
    ∀ value ∈ op.fields, ∃ w : UInt32, value = asField w := by
  rw [Operation.fields, Operation.wordFields, Operation.packedFields]
  cases i with
  | write32 column row address value =>
      obtain ⟨hname, hcolumn, hrow, haddress, hvalue⟩ := h
      rw [hname]
      simp [hcolumn, hrow, haddress, hvalue]
  | writeDescriptor column id length offset argument =>
      obtain ⟨hname, hcolumn, hid, hlength, hoffset, hargument⟩ := h
      have hzero : ∃ w : UInt32, some 0 = asField w := ⟨0, rfl⟩
      rw [hname]
      simp [hcolumn, hid, hlength, hoffset, hargument, hzero]
  | addressPatch address argument offset =>
      obtain ⟨hname, haddress, hargument, hoffset⟩ := h
      rw [hname]
      simp [haddress, hargument, hoffset]
  | sync column row direction channel columns rows =>
      obtain ⟨hname, hcolumn, hrow, hdirection, hchannel, hcolumns, hrows⟩ := h
      rw [hname]
      simp [hcolumn, hrow, hdirection, hchannel, hcolumns, hrows]

/-- A record with truncated fields in its opcode word only. -/
theorem Record.Packs.of_truncated {op : Operation} {r : Record}
    (hword : ∀ value ∈ op.fields, ∃ w : UInt32, value = asField w)
    (h : ∀ f ∈ op.packedFields, r.read f.place = f.value.map (· % 2 ^ f.place.width)) :
    r.Packs op where
  isWord := hword
  truncated f hf _ := h f hf
  recovered f hf hfit := by
    rw [h f hf, (hfit f hf rfl).mod (hword _ (Operation.value_mem_fields hf))]

/-- The record of an instruction packs the fields of its operation. -/
theorem Instruction.packs_record {op : Operation} {i : Instruction} (h : i.Describes op) :
    i.record.Packs op := by
  have hisWord := h.isWord
  cases i with
  | write32 column row address value =>
      obtain ⟨hname, hcolumn, hrow, -⟩ := h
      obtain ⟨hreadColumn, hreadRow⟩ :
          Record.read (record (.write32 column row address value)) ⟨0, 16, 8⟩ =
              (asField column).map (· % 2 ^ 8) ∧
            Record.read (record (.write32 column row address value)) ⟨0, 8, 8⟩ =
              (asField row).map (· % 2 ^ 8) := read_opcodeWord (by decide)
      refine .of_truncated hisWord ?_
      rw [Operation.packedFields, hname, hcolumn, hrow]
      simp [hreadColumn, hreadRow]
  | writeDescriptor column id length offset argument =>
      obtain ⟨hname, hcolumn, -⟩ := h
      obtain ⟨hreadColumn, hreadRow⟩ :
          Record.read (record (.writeDescriptor column id length offset argument)) ⟨0, 16, 8⟩ =
              (asField column).map (· % 2 ^ 8) ∧
            Record.read (record (.writeDescriptor column id length offset argument)) ⟨0, 8, 8⟩ =
              (asField 0).map (· % 2 ^ 8) := read_opcodeWord (by decide)
      refine .of_truncated hisWord ?_
      rw [Operation.packedFields, hname, hcolumn]
      simp [hreadColumn, hreadRow, asField]
  | addressPatch address argument offset =>
      refine .of_truncated hisWord ?_
      rw [Operation.packedFields, h.1]
      exact List.forall_mem_nil _
  | sync column row direction channel columns rows =>
      obtain ⟨hname, hcolumn, hrow, hdirection, hchannel, hcolumns, hrows⟩ := h
      have hfields : op.packedFields =
          [⟨asField column, ⟨1, 16, 16⟩⟩, ⟨asField row, ⟨1, 8, 8⟩⟩, ⟨asField direction, ⟨1, 0, 8⟩⟩,
            ⟨asField channel, ⟨2, 16, 16⟩⟩, ⟨asField columns, ⟨2, 8, 8⟩⟩,
            ⟨asField rows, ⟨2, 0, 8⟩⟩] := by
        rw [Operation.packedFields, hname, hcolumn, hrow, hdirection, hchannel, hcolumns, hrows]
        rfl
      refine ⟨hisWord, ?_, ?_⟩
      · rw [hfields]
        simp
      · intro f hf hfit
        have hfits : ∀ g ∈ op.packedFields, g.place.word = f.place.word → g.Fits := hfit
        simp only [hfields, List.forall_mem_cons] at hfits
        obtain ⟨hcolumn, hrow, hdirection, hchannel, hcolumns, hrows, -⟩ := hfits
        have hfirst := fun hword : 1 = f.place.word =>
          read_packed (r := record (.sync column row direction channel columns rows)) rfl
            (hcolumn hword) (hrow hword) (hdirection hword)
        have hsecond := fun hword : 2 = f.place.word =>
          read_packed (r := record (.sync column row direction channel columns rows)) rfl
            (hchannel hword) (hcolumns hword) (hrows hword)
        rw [hfields] at hf
        simp only [List.mem_cons, List.not_mem_nil, or_false] at hf
        rcases hf with rfl | rfl | rfl | rfl | rfl | rfl
        · exact (hfirst rfl).1
        · exact (hfirst rfl).2.1
        · exact (hfirst rfl).2.2
        · exact (hsecond rfl).1
        · exact (hsecond rfl).2.1
        · exact (hsecond rfl).2.2

/-! ### Streams -/

/-- Operations with one opcode have one name. -/
theorem Operation.name_eq_of_opcode? {a b : Operation} {code : Nat} (ha : a.opcode? = some code)
    (hb : b.opcode? = some code) : a.name = b.name := by
  have hname : ∀ {op : Operation}, op.opcode? = some code → op.name =
      if code = 2 then "aiex.ipu.write32" else if code = 3 then "aiex.ipu.sync"
      else if code = 4 then "aiex.ipu.address_patch" else "aiex.ipu.writebd_shimtile" := by
    intro op hop
    rw [opcode?] at hop
    split at hop <;> cases hop <;> assumption
  rw [hname ha, hname hb]

/-- Operations with one name have their fields in the same places. -/
theorem Operation.places_eq {a b : Operation} (h : a.name = b.name) :
    a.wordFields.length = b.wordFields.length ∧
      a.packedFields.map (·.place) = b.packedFields.map (·.place) := by
  rw [wordFields, wordFields, packedFields, packedFields, h]
  constructor
  · split <;> rfl
  · split <;> rfl

/-- A record belongs to one instruction, if its fields fit. -/
theorem Record.fields_eq {a b : Operation} {r : Record} (ha : r.Carries a) (hb : r.Carries b)
    (hpacksA : r.Packs a) (hpacksB : r.Packs b) (hfitA : a.FieldsFit) (hfitB : b.FieldsFit) :
    a.name = b.name ∧ a.fields = b.fields := by
  have hname : a.name = b.name := Operation.name_eq_of_opcode? ha.opcode hb.opcode
  obtain ⟨hlength, hplaces⟩ := Operation.places_eq hname
  have hvalues : ∀ {op : Operation}, r.Packs op → op.FieldsFit →
      op.packedFields.map (·.value) = (op.packedFields.map (·.place)).map r.read := by
    intro op hpacks hfit
    rw [List.map_map]
    exact List.map_congr_left fun f hf =>
      (hpacks.recovered f hf fun g hg _ => hfit g hg).symm
  have hwords : a.wordFields = b.wordFields :=
    (List.prefix_of_prefix_length_le ha.wordFields hb.wordFields
      (Nat.le_of_eq hlength)).eq_of_length hlength
  refine ⟨hname, ?_⟩
  rw [Operation.fields, Operation.fields, hwords, hvalues hpacksA hfitA, hvalues hpacksB hfitB,
    hplaces]

/-- The records of a stream show the fields of its operations that share a word: the low byte of
coordinates in an opcode word, and all of those in a payload word that fit their bits. No field is
negative or too large for a word. Instructions whose fields fit are different records, unless all
their fields are the same. -/
theorem instructionWords_packed :
    (∀ (p : Program) (words : List UInt32), p.instructionWords = .ok words →
      ∃ records, splitRecords (words.drop 2) = some records ∧
        List.Forall₂ (fun op r => r.Packs op) p.runtimeOps records) ∧
    ∀ (a b : Operation) (i j : Instruction), Instruction.ofOp a = .ok i →
      Instruction.ofOp b = .ok j → a.FieldsFit → b.FieldsFit → i.words = j.words →
        a.name = b.name ∧ a.fields = b.fields := by
  constructor
  · intro p words h
    obtain ⟨instructions, hall, rfl⟩ := Program.instructionWords_eq_ok_iff.1 h
    refine ⟨instructions.map Instruction.record, ?_, ?_⟩
    · refine splitRecords_flatMap ?_
      intro r hr
      obtain ⟨i, -, rfl⟩ := List.mem_map.1 hr
      exact i.wellFormed_record
    · rw [List.forall₂_map_right_iff]
      exact hall.imp fun _ _ hop => Instruction.packs_record hop
  · intro a b i j ha hb hfitA hfitB hwords
    have hi := Instruction.describes_of_ofOp ha
    have hj := Instruction.describes_of_ofOp hb
    have hrecord : j.record = i.record := by rw [Instruction.record, Instruction.record, hwords]
    have hcarries := Instruction.carries_record hj
    have hpacks := Instruction.packs_record hj
    rw [hrecord] at hcarries hpacks
    exact Record.fields_eq (Instruction.carries_record hi) hcarries (Instruction.packs_record hi)
      hpacks hfitA hfitB

/-- What the records of four instructions show, and two synchronizations with one record. -/
theorem instructionWords_packed_four :
    (∃ p words, Source.parse instructionSource = .ok p ∧ p.instructionWords = .ok words ∧
      ∃ records, splitRecords (words.drop 2) = some records ∧
        List.Forall₂ (fun op r => r.Packs op) p.runtimeOps records) ∧
    ∃ (a b : Operation) (i : Instruction), a ≠ b ∧ Instruction.ofOp a = .ok i ∧
      Instruction.ofOp b = .ok i ∧ a.FieldsFit ∧ b.FieldsFit ∧
        a.name = b.name ∧ a.fields = b.fields := by
  have hsource : ∃ p, Source.parse instructionSource = .ok p ∧
      p.instructionWords.toOption.any (fun _ => decide True) = true :=
    exists_ok_of_any (by decide +kernel)
  obtain ⟨p, hp, hwords⟩ := hsource
  obtain ⟨words, hrun, -⟩ := exists_ok_of_any hwords
  refine ⟨⟨p, words, hp, hrun, instructionWords_packed.1 p words hrun⟩, ?_⟩
  let a : Operation :=
    { name := "aiex.ipu.sync", operands := [.int 0, .int 1, .int 0, .int 2, .int 1, .int 1] }
  let b : Operation := { a with result := some "done" }
  have hfit : a.FieldsFit ∧ b.FieldsFit := by decide
  have ha : Instruction.ofOp a = .ok (.sync 0 1 0 2 1 1) := rfl
  have hb : Instruction.ofOp b = .ok (.sync 0 1 0 2 1 1) := rfl
  exact ⟨a, b, _, by decide, ha, hb, hfit.1, hfit.2,
    instructionWords_packed.2 a b _ _ ha hb hfit.1 hfit.2 rfl⟩

/-- Instructions on column 256 and on column 0 have the same words. -/
theorem instructionWords_truncates : ∃ p words records, Source.parse
      ("aiex.ipu.write32(256, 0) \x7baddress = 0, value = 0\x7d\n" ++
        "aiex.ipu.write32(0, 0) \x7baddress = 0, value = 0\x7d") = .ok p ∧
    p.instructionWords = .ok words ∧ splitRecords (words.drop 2) = some records ∧
    p.runtimeOps.map (·.packedFields) =
      [[⟨some 256, ⟨0, 16, 8⟩⟩, ⟨some 0, ⟨0, 8, 8⟩⟩], [⟨some 0, ⟨0, 16, 8⟩⟩, ⟨some 0, ⟨0, 8, 8⟩⟩]] ∧
    records = [⟨0x02000000, [0, 0]⟩, ⟨0x02000000, [0, 0]⟩] ∧
    ¬List.Forall₂ (fun op r => ∀ f ∈ op.packedFields, r.read f.place = f.value)
      p.runtimeOps records := by
  have hsource : ∃ p, Source.parse
      ("aiex.ipu.write32(256, 0) \x7baddress = 0, value = 0\x7d\n" ++
        "aiex.ipu.write32(0, 0) \x7baddress = 0, value = 0\x7d") = .ok p ∧
      p.runtimeOps.map (·.packedFields) =
        [[⟨some 256, ⟨0, 16, 8⟩⟩, ⟨some 0, ⟨0, 8, 8⟩⟩],
          [⟨some 0, ⟨0, 16, 8⟩⟩, ⟨some 0, ⟨0, 8, 8⟩⟩]] ∧
      p.instructionWords.toOption.any (fun words => decide (words =
        [streamHeader, 2, 0x02000000, 0, 0, 0x02000000, 0, 0])) = true :=
    exists_ok_of_any (by decide +kernel)
  obtain ⟨p, hp, hfields, hwords⟩ := hsource
  obtain ⟨_, hrun, rfl⟩ := exists_ok_of_any hwords
  have hwellFormed : ∀ r ∈ [(⟨0x02000000, [0, 0]⟩ : Record), ⟨0x02000000, [0, 0]⟩],
      r.WellFormed := by decide
  refine ⟨p, _, _, hp, hrun, splitRecords_flatMap hwellFormed, hfields, rfl, ?_⟩
  intro h
  rw [← List.forall₂_map_left_iff (f := Operation.packedFields)
    (R := fun fields r => ∀ f ∈ fields, Record.read r f.place = f.value), hfields] at h
  obtain ⟨hfirst, -⟩ := List.forall₂_cons.1 h
  exact absurd (hfirst _ List.mem_cons_self) (by decide)

end TileFlow
