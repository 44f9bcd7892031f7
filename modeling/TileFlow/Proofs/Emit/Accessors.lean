import Mathlib.Data.List.Flatten
import TileFlow.Proofs.Core.Symbols
import TileFlow.Proofs.Emit.Sections
import TileFlow.Proofs.Emit.Translatable

/-!
# Accessors of buffers

The glue ends with functions that read and write the buffers of the routed program. A function has
the symbol of its buffer in its name, and the place and the address of the buffer in the call that
it makes. The symbols are taken over as the program has them, so that buffers with one symbol, on
one device or on two, have functions with the same names.

Symbols are any texts. A symbol that breaks lines could look like a function of its own, and of one
that opens a parenthesis the text does not show where it ends. What the text defines is read back
for the other symbols.

## Main definitions

* `accessorNames`: the names of the accessors that a text defines.
* `DefinesAccessors`: a text of whole lines that define accessors of some names.
* `Program.accessorSymbols`: the symbols that the accessors of a program have in their names.

## Main results

* `BufferSummary.accessors_defines`: the accessors of one buffer.
* `hostedBuffers_sublist`: the buffers of a routed program.
* `hostGlue_accessors`: the accessors of the glue, and when their names are different.
-/

namespace TileFlow

open Text

variable {p q m : Program}

/-! ### The accessors of a text -/

/-- How the lines begin that define accessors. -/
def accessorStarts : List String :=
  ["int32_t mlir_aie_read_buffer_", "void mlir_aie_write_buffer_"]

/-- Whether a line defines an accessor. -/
def isAccessorLine (line : List Char) : Bool :=
  accessorStarts.any fun start => start.toList.isPrefixOf line

/-- The name of the function that a line defines: what is between its type and its arguments. -/
def definedName (line : List Char) : String :=
  String.ofList (((line.dropWhile (· ≠ ' ')).drop 1).takeWhile (· ≠ '('))

/-- The names of the accessors that a text defines. -/
def accessorNames (text : String) : List String :=
  (selectLines isAccessorLine text.toList).map definedName

/-- The accessor that reads a buffer. -/
def readerName (symbol : String) : String :=
  "mlir_aie_read_buffer_" ++ symbol

/-- The accessor that writes a buffer. -/
def writerName (symbol : String) : String :=
  "mlir_aie_write_buffer_" ++ symbol

/-- A symbol of which a text shows where it ends. -/
def IsPlainSymbol (symbol : String) : Prop :=
  IsUnbroken symbol ∧ '(' ∉ symbol.toList

instance (symbol : String) : Decidable (IsPlainSymbol symbol) :=
  inferInstanceAs (Decidable (_ ∧ _))

/-- The symbols that the accessors of the buffers of a program have. -/
def Program.accessorSymbols (p : Program) : List String :=
  p.deviceBuffers.map fun id => (p.op id).symbolName?.getD "buffer"

/-! ### Names -/

/-- The characters of a reader's name. -/
theorem readerName_toList (symbol : String) :
    (readerName symbol).toList = "mlir_aie_read_buffer_".toList ++ symbol.toList :=
  String.toList_append

/-- The characters of a writer's name. -/
theorem writerName_toList (symbol : String) :
    (writerName symbol).toList = "mlir_aie_write_buffer_".toList ++ symbol.toList :=
  String.toList_append

/-- Two buffers have one reader only with one symbol. -/
theorem readerName_inj {a b : String} : readerName a = readerName b ↔ a = b := by
  rw [← String.toList_inj, readerName_toList, readerName_toList, List.append_cancel_left_eq,
    String.toList_inj]

/-- Two buffers have one writer only with one symbol. -/
theorem writerName_inj {a b : String} : writerName a = writerName b ↔ a = b := by
  rw [← String.toList_inj, writerName_toList, writerName_toList, List.append_cancel_left_eq,
    String.toList_inj]

/-- Accessors of different kinds have different names. -/
theorem readerName_ne_writerName (a b : String) : readerName a ≠ writerName b := fun h => by
  have hkinds : ¬ "mlir_aie_read_buffer_".toList <+: "mlir_aie_write_buffer_".toList ∧
      ¬ "mlir_aie_write_buffer_".toList <+: "mlir_aie_read_buffer_".toList := by
    decide
  have hreader : "mlir_aie_read_buffer_".toList <+: (writerName b).toList :=
    h ▸ readerName_toList a ▸ List.prefix_append _ _
  have hwriter : "mlir_aie_write_buffer_".toList <+: (writerName b).toList :=
    writerName_toList b ▸ List.prefix_append _ _
  exact (List.prefix_or_prefix_of_prefix hreader hwriter).elim hkinds.1 hkinds.2

/-- The accessors for symbols have different names exactly if the symbols are different. -/
theorem nodup_accessors {symbols : List String} :
    (symbols.flatMap fun symbol => [readerName symbol, writerName symbol]).Nodup ↔
    symbols.Nodup := by
  have hpair : ∀ symbol ∈ symbols, [readerName symbol, writerName symbol].Nodup :=
    fun symbol _ => by
    simp [readerName_ne_writerName]
  have hdisjoint : ∀ a b : String,
      List.Disjoint [readerName a, writerName a] [readerName b, writerName b] ↔ a ≠ b :=
        fun a b => by
    simp [readerName_inj, writerName_inj, readerName_ne_writerName,
      (readerName_ne_writerName _ _).symm, eq_comm]
  rw [List.nodup_flatMap, and_iff_right hpair]
  exact List.Pairwise.iff (hdisjoint · ·)

/-! ### The lines of the accessors -/

/-- The lines of the functions that read and write a buffer. -/
def BufferSummary.accessorLines (b : BufferSummary) : List String :=
  let address := hexAddress b.address
  ["", s!"// {b.size} bytes at {address} on tile {b.tile.render}",
    "int32_t " ++ readerName b.symbol ++ "(aie_libxaie_ctx_t *ctx, int index) \x7b",
    "  u32 value;",
    s!"  XAie_DataMemRdWord({glueHandle}, {b.tile.location}, {address} + (index * 4), &value);",
    "  return value;", "\x7d",
    "void " ++ writerName b.symbol ++ "(aie_libxaie_ctx_t *ctx, int index, int32_t value) \x7b",
    s!"  XAie_DataMemWrWord({glueHandle}, {b.tile.location}, {address} + (index * 4), value);",
    "\x7d"]

/-- The accessors of a buffer, line by line. -/
theorem BufferSummary.accessors_toList (b : BufferSummary) :
    b.accessors.toList = joinLines (b.accessorLines.map String.toList) := by
  unfold accessors accessorLines readerName writerName
  generalize hexAddress b.address = address
  generalize b.tile.render = place
  generalize b.tile.location = location
  generalize toString b.size = size
  generalize b.symbol = symbol
  generalize glueHandle = handle
  have hid : ∀ s : String, toString s = s := fun _ => rfl
  -- The texts are cut at the ends of lines, and before the names of the accessors.
  have hbreaks : "int32_t mlir_aie_read_buffer_".toList =
        "int32_t ".toList ++ "mlir_aie_read_buffer_".toList ∧
      "void mlir_aie_write_buffer_".toList = "void ".toList ++ "mlir_aie_write_buffer_".toList ∧
      "\n// ".toList = '\n' :: "// ".toList ∧ "\n".toList = ['\n'] ∧
      "(aie_libxaie_ctx_t *ctx, int index) \x7b\n".toList =
        "(aie_libxaie_ctx_t *ctx, int index) \x7b".toList ++ ['\n'] ∧
      "  u32 value;\n".toList = "  u32 value;".toList ++ ['\n'] ∧
      " + (index * 4), &value);\n".toList = " + (index * 4), &value);".toList ++ ['\n'] ∧
      "  return value;\n\x7d\n".toList = "  return value;".toList ++ '\n' ::
        "\x7d".toList ++ ['\n'] ∧
      "(aie_libxaie_ctx_t *ctx, int index, int32_t value) \x7b".toList =
        "(aie_libxaie_ctx_t *ctx, int index, int32_t value) ".toList ++ "\x7b".toList ∧
      "\x7d\n".toList = "\x7d".toList ++ ['\n'] ∧
      "\x7b\n".toList = "\x7b".toList ++ ['\n'] ∧
      " + (index * 4), value);\n".toList = " + (index * 4), value);".toList ++ ['\n'] ∧
      "".toList = [] := by
    decide +kernel
  simp only [hid, List.map_cons, List.map_nil, joinLines_cons, joinLines_nil, String.toList_append,
    hbreaks, List.append_assoc, List.cons_append, List.nil_append]

/-- A line that begins otherwise defines no accessor. -/
theorem isAccessorLine_of_start (start : List Char) {line : List Char}
    (h : ∀ a ∈ accessorStarts, ¬ a.toList <+: start ∧ ¬ start <+: a.toList)
    (hstart : start <+: line) :
    isAccessorLine line = false := by
  refine Bool.eq_false_iff.2 fun hline => ?_
  obtain ⟨a, ha, hprefix⟩ := List.any_eq_true.1 hline
  exact (List.prefix_or_prefix_of_prefix (List.isPrefixOf_iff_prefix.1 hprefix) hstart).elim
    (h a ha).1 (h a ha).2

/-- What the arguments of a call break off defines no accessor. -/
theorem IsQuiet.not_isAccessorLine {line : List Char} (h : IsQuiet line) :
    isAccessorLine line = false := by
  refine Bool.eq_false_iff.2 fun hline => ?_
  obtain ⟨start, hstart, hprefix⟩ := List.any_eq_true.1 hline
  obtain ⟨rest, rfl⟩ := List.isPrefixOf_iff_prefix.1 hprefix
  have hall : ∀ start ∈ accessorStarts, ',' ∉ start.toList ∧ 'i' ∈ start.toList := by decide
  obtain ⟨hcomma, hi⟩ := hall start hstart
  refine h ?_
  rw [List.takeWhile_append_of_pos fun c hc => decide_eq_true (ne_of_mem_of_not_mem hc hcomma)]
  exact List.mem_append_left _ hi

/-! ### Texts that define accessors -/

/-- A text of whole lines that define accessors of some names. -/
def DefinesAccessors (names : List String) (text : String) : Prop :=
  ∃ parts, text.toList = joinLines parts ∧
    (parts.flatMap (selectLines isAccessorLine)).map definedName = names

namespace DefinesAccessors

variable {names names' : List String} {text text' : String}

/-- The names read off a text that defines accessors. -/
theorem accessorNames_eq (h : DefinesAccessors names text) : accessorNames text = names := by
  obtain ⟨parts, htext, rfl⟩ := h
  rw [accessorNames, htext, selectLines_joinLines (by decide)]

/-- Two texts in a row define the accessors of both. -/
theorem append (h : DefinesAccessors names text) (h' : DefinesAccessors names' text') :
    DefinesAccessors (names ++ names') (text ++ text') := by
  obtain ⟨parts, htext, rfl⟩ := h
  obtain ⟨parts', htext', rfl⟩ := h'
  refine ⟨parts ++ parts', ?_, by rw [List.flatMap_append, List.map_append]⟩
  rw [String.toList_append, htext, htext', joinLines_append]

/-- Texts put together define the accessors of each, in order. -/
theorem join {α : Type} {l : List α} {f : α → List String} {g : α → String}
    (h : ∀ a ∈ l, DefinesAccessors (f a) (g a)) :
    DefinesAccessors (l.flatMap f) (String.join (l.map g)) := by
  induction l with
  | nil => exact ⟨[], rfl, rfl⟩
  | cons a rest ih =>
      rw [List.flatMap_cons, List.map_cons, String.join_cons]
      exact (h a List.mem_cons_self).append (ih fun b hb => h b (List.mem_cons_of_mem _ hb))

/-- A line that is not broken. -/
theorem selectLines_of_notMem {line : List Char} (h : '\n' ∉ line) :
    selectLines isAccessorLine line = if isAccessorLine line then [line] else [] := by
  rw [selectLines, splitChars_of_notMem h, List.filter_cons, List.filter_nil]

/-- Lines that are not broken. -/
theorem of_lines (lines : List String) (htext : text.toList = joinLines (lines.map String.toList))
    (h : ∀ line ∈ lines, IsUnbroken line) :
    DefinesAccessors ((lines.filter (isAccessorLine ·.toList)).map (definedName ·.toList))
    text := by
  refine ⟨_, htext, ?_⟩
  clear htext
  induction lines with
  | nil => rfl
  | cons line rest ih =>
      obtain ⟨hline, hrest⟩ := List.forall_mem_cons.1 h
      rw [List.map_cons, List.flatMap_cons, List.map_append, ih hrest, selectLines_of_notMem hline,
        List.filter_cons]
      split <;> rfl

/-- The functions that set up devices are no accessors. -/
theorem renderCalls (calls : List SetupCall) : DefinesAccessors []
    (renderCalls glueHandle calls) := by
  have hone : ∀ c ∈ calls, DefinesAccessors [] (c.render glueHandle) := fun c _ => by
    refine ⟨[c.chars glueHandle], by rw [c.render_toList, joinLines_cons, joinLines_nil], ?_⟩
    have hlater : ∀ line ∈ laterLines (c.chars glueHandle), isAccessorLine line = false := by
      rw [SetupCall.chars, laterLines_append c.isPlainChars_callStart.1,
        laterLines_append (by decide)]
      exact fun line hline => (c.isArguments_tail.quiet line hline).not_isAccessorLine
    have hfirst : isAccessorLine ((c.chars glueHandle).takeWhile (· ≠ '\n')) = false := by
      obtain ⟨rest, hrest⟩ : ∃ rest, c.chars glueHandle = "  ".toList ++ rest :=
        ⟨_, by rw [SetupCall.chars, callStart, String.toList_append, String.toList_append,
          List.append_assoc, List.append_assoc]⟩
      rw [hrest, List.takeWhile_append_of_pos (List.all_eq_true.1 (by decide))]
      exact isAccessorLine_of_start _ (by decide) (List.prefix_append _ _)
    rw [List.flatMap_singleton, selectLines_eq hlater, hfirst]
    rfl
  have := join hone
  rwa [List.flatMap_eq_nil_iff.2 fun _ _ => rfl] at this

end DefinesAccessors

/-- A function that makes calls is no accessor. -/
theorem glueFunction_defines {name : String} (hname : IsUnbroken name) (calls : List SetupCall) :
    DefinesAccessors [] (glueFunction name calls) := by
  have hhead : DefinesAccessors [] s!"int {name}(aie_libxaie_ctx_t *ctx) \x7b\n" := by
    have hbreak : "(aie_libxaie_ctx_t *ctx) \x7b\n".toList =
        "(aie_libxaie_ctx_t *ctx) \x7b".toList ++ ['\n'] := by decide
    refine ⟨["int ".toList ++ (name.toList ++ "(aie_libxaie_ctx_t *ctx) \x7b".toList)], ?_, ?_⟩
    · rw [joinLines_cons, joinLines_nil, String.toList_append, String.toList_append]
      change _ ++ _ ++ "(aie_libxaie_ctx_t *ctx) \x7b\n".toList = _
      rw [hbreak]
      simp only [List.append_assoc]
      rfl
    · rw [List.flatMap_singleton, DefinesAccessors.selectLines_of_notMem (by
        simp only [List.mem_append, not_or]
        exact ⟨by decide, hname, by decide⟩),
        isAccessorLine_of_start "int ".toList (by decide) (List.prefix_append _ _)]
      rfl
  have hend : DefinesAccessors [] "  return 0;\n\x7d\n" :=
    .of_lines ["  return 0;", "\x7d"] (by decide) (by decide)
  have := (hhead.append (.renderCalls calls)).append hend
  rwa [List.append_nil] at this

/-! ### The accessors of buffers -/

namespace BufferSummary

variable {b : BufferSummary}

/-- With an unbroken symbol, the lines of the accessors are unbroken. -/
theorem isUnbroken_of_mem_accessorLines (hsymbol : IsUnbroken b.symbol) :
    ∀ line ∈ b.accessorLines, IsUnbroken line := by
  have hlocation : IsUnbroken b.tile.location := b.tile.isPlainChars_location.1
  have hplace := b.tile.isUnbroken_render
  have hsize : IsUnbroken (toString b.size) := (isPlainChars_int b.size).1
  have haddress := isUnbroken_hexAddress b.address
  unfold accessorLines
  generalize hexAddress b.address = address at haddress ⊢
  generalize b.tile.location = location at hlocation ⊢
  generalize b.tile.render = place at hplace ⊢
  generalize toString b.size = size at hsize ⊢
  have hhandle : IsUnbroken glueHandle := by decide
  generalize glueHandle = handle at hhandle ⊢
  simp only [List.forall_mem_cons]
  refine ⟨by decide, ?_, ?_, by decide, ?_, by decide, by decide, ?_, ?_, by decide, by simp⟩
  · exact ((((by decide : IsUnbroken "// ").append hsize).append (by decide)).append
      haddress).append
      (by decide) |>.append hplace
  · exact ((by decide : IsUnbroken "int32_t ").append
      ((by decide : IsUnbroken "mlir_aie_read_buffer_").append hsymbol)).append (by decide)
  · exact ((((by decide : IsUnbroken "  XAie_DataMemRdWord(").append hhandle).append
      (by decide)).append
      hlocation |>.append (by decide)).append haddress |>.append (by decide)
  · exact ((by decide : IsUnbroken "void ").append
      ((by decide : IsUnbroken "mlir_aie_write_buffer_").append hsymbol)).append (by decide)
  · exact ((((by decide : IsUnbroken "  XAie_DataMemWrWord(").append hhandle).append
      (by decide)).append
      hlocation |>.append (by decide)).append haddress |>.append (by decide)

/-- The name of a function is between its type and its arguments. -/
theorem definedName_line {type name arguments : String}
    (htype : (type.toList.dropLast.all (· ≠ ' ')) = true ∧ type.toList.getLast? = some ' ')
    (hname : '(' ∉ name.toList) (harguments : arguments.toList.head? = some '(') :
    definedName (type ++ name ++ arguments).toList = name := by
  have hkeep : ∀ c ∈ name.toList, decide (c ≠ '(') = true :=
    fun c hc => decide_eq_true fun h => hname (h ▸ hc)
  obtain ⟨rest, hrest⟩ := List.head?_eq_some_iff.1 harguments
  rw [definedName, String.toList_append, String.toList_append, List.append_assoc, hrest,
    ← List.dropLast_append_getLast? _ htype.2, List.append_assoc, List.singleton_append,
    List.dropWhile_append_of_pos (List.all_eq_true.1 htype.1), List.dropWhile_cons_of_neg (by simp),
    List.drop_succ_cons, List.drop_zero, List.takeWhile_append_of_pos hkeep,
    List.takeWhile_cons_of_neg (by simp), List.append_nil, String.ofList_toList]

/-- A line that begins like an accessor, cut before the name of the accessor. -/
theorem isAccessorLine_cut {type stem symbol : String}
    (h : type ++ stem ∈ accessorStarts) (rest : String) :
    isAccessorLine (type ++ (stem ++ symbol ++ rest)).toList = true := by
  refine List.any_eq_true.2 ⟨_, h, List.isPrefixOf_iff_prefix.2 ?_⟩
  rw [String.append_assoc, ← String.append_assoc, @String.toList_append (type ++ stem)]
  exact List.prefix_append _ _

/-- Of the lines of the functions of a buffer two define accessors. -/
theorem filter_accessorLines (b : BufferSummary) :
    b.accessorLines.filter (isAccessorLine ·.toList) =
      ["int32_t " ++ readerName b.symbol ++ "(aie_libxaie_ctx_t *ctx, int index) \x7b",
        "void " ++ writerName b.symbol ++
          "(aie_libxaie_ctx_t *ctx, int index, int32_t value) \x7b"] := by
  have hother : ∀ {start : String},
      (∀ a ∈ accessorStarts, ¬ a.toList <+: start.toList ∧ ¬ start.toList <+: a.toList) →
      ∀ rest, isAccessorLine (start ++ rest).toList = false := fun h rest => by
    rw [String.toList_append]
    exact isAccessorLine_of_start _ h (List.prefix_append _ _)
  have hliterals : isAccessorLine "".toList = false ∧ isAccessorLine "  u32 value;".toList = false ∧
      isAccessorLine "  return value;".toList = false ∧ isAccessorLine "\x7d".toList = false := by
    decide
  have hsize : ∀ rest, isAccessorLine ("// " ++ rest).toList = false := hother (by decide)
  have hload : ∀ rest, isAccessorLine ("  XAie_DataMemRdWord(" ++ rest).toList = false :=
    hother (by decide)
  have hstore : ∀ rest, isAccessorLine ("  XAie_DataMemWrWord(" ++ rest).toList = false :=
    hother (by decide)
  have hread : ∀ rest, isAccessorLine ("int32_t " ++ (readerName b.symbol ++ rest)).toList = true :=
    isAccessorLine_cut (by decide)
  have hwrite : ∀ rest, isAccessorLine ("void " ++ (writerName b.symbol ++ rest)).toList = true :=
    isAccessorLine_cut (by decide)
  unfold accessorLines
  generalize hexAddress b.address = address
  generalize b.tile.location = location
  generalize b.tile.render = place
  generalize toString b.size = size
  generalize glueHandle = handle
  have hid : ∀ s : String, toString s = s := fun _ => rfl
  simp only [hid, String.append_assoc, List.filter_cons, List.filter_nil, hliterals, hread, hwrite,
    hsize, hload, hstore, if_true, Bool.false_eq_true, if_false]

/-- The functions of a buffer are the two accessors, if the symbol of the buffer neither breaks
lines nor opens a parenthesis. -/
theorem accessors_defines (hplain : IsPlainSymbol b.symbol) :
    DefinesAccessors [readerName b.symbol, writerName b.symbol] b.accessors := by
  have hopen : '(' ∉ "mlir_aie_read_buffer_".toList ∧ '(' ∉ "mlir_aie_write_buffer_".toList := by
    decide
  have hreader : '(' ∉ (readerName b.symbol).toList := fun h => by
    rw [readerName_toList, List.mem_append] at h
    exact hplain.2 (h.resolve_left hopen.1)
  have hwriter : '(' ∉ (writerName b.symbol).toList := fun h => by
    rw [writerName_toList, List.mem_append] at h
    exact hplain.2 (h.resolve_left hopen.2)
  have hread : definedName ("int32_t " ++ readerName b.symbol ++
      "(aie_libxaie_ctx_t *ctx, int index) \x7b").toList = readerName b.symbol :=
    definedName_line (by decide +kernel) hreader (by decide +kernel)
  have hwrite : definedName ("void " ++ writerName b.symbol ++
      "(aie_libxaie_ctx_t *ctx, int index, int32_t value) \x7b").toList = writerName b.symbol :=
    definedName_line (by decide +kernel) hwriter (by decide +kernel)
  have hdefines :=
    DefinesAccessors.of_lines _ b.accessors_toList (isUnbroken_of_mem_accessorLines hplain.1)
  rwa [filter_accessorLines, List.map_cons, List.map_cons, List.map_nil, hread, hwrite] at hdefines

end BufferSummary

/-! ### The glue -/

/-- The glue ends with the accessors of the buffers, and defines no accessors before. -/
theorem glueText_eq (devices : List DeviceSummary) : ∃ setup,
    glueText devices = setup ++ String.join ((devices.flatMap (·.buffers)).map (·.accessors)) ∧
    DefinesAccessors [] setup := by
  have hhead : DefinesAccessors []
      "// Generated libxaie configuration; include from the host program.\n\n" :=
    .of_lines ["// Generated libxaie configuration; include from the host program.", ""]
      (by decide) (by decide)
  have hbreak : DefinesAccessors [] "\n" := .of_lines [""] (by decide) (by decide)
  have hfunction : ∀ name ∈ ["mlir_aie_configure_cores", "mlir_aie_start_cores",
      "mlir_aie_initialize_locks", "mlir_aie_configure_switchboxes"],
      ∀ calls, DefinesAccessors [] (glueFunction name calls) := fun name hname =>
    glueFunction_defines ((by decide : ∀ name ∈ ["mlir_aie_configure_cores", "mlir_aie_start_cores",
      "mlir_aie_initialize_locks", "mlir_aie_configure_switchboxes"], IsUnbroken name) name hname)
  exact ⟨_, rfl, ((((((hhead.append (hfunction _ (by simp) _)).append hbreak).append
    (hfunction _ (by simp) _)).append hbreak).append (hfunction _ (by simp) _)).append
      hbreak).append
      (hfunction _ (by simp) _)⟩

/-- A summary has the symbol, the place and the address of a buffer. -/
structure BufferSummary.IsOf (b : BufferSummary) (p : Program) (id : OpId) : Prop where
  symbol : b.symbol = (p.op id).symbolName?.getD "buffer"
  place : p.owningTile? id = some b.tile
  address : (p.op id).intAttr? "address" = some b.address

/-- The summaries of devices have all buffers. -/
theorem Program.summaries_buffers {devices : List DeviceSummary} (h : p.summaries = .ok devices) :
    List.Forall₂ (fun id b => b.IsOf p id) p.deviceBuffers (devices.flatMap (·.buffers)) := by
  refine List.rel_flatMap (Except.mapM_ok_iff.1 h) fun _ _ hd =>
    (Except.mapM_ok_iff.1 (Program.summary_ok hd).2).imp fun _ _ hb => ?_
  obtain ⟨hsymbol, hplace, haddress⟩ := Program.bufferSummary_ok hb
  exact ⟨hsymbol, hplace, haddress⟩

/-- The glue is what sets up the devices, with the accessors of the buffers at the end. -/
theorem Program.hostGlue_eq {text : String} (h : p.hostGlue = .ok text) : ∃ setup buffers,
    List.Forall₂ (fun id b => b.IsOf p id) p.deviceBuffers buffers ∧
    buffers.map BufferSummary.symbol = p.accessorSymbols ∧
    text = setup ++ String.join (buffers.map BufferSummary.accessors) ∧ DefinesAccessors
    [] setup := by
  rw [Program.hostGlue] at h
  split at h
  case h_2 => cases h
  case h_1 devices hdevices =>
    cases h
    have hbuffers := Program.summaries_buffers hdevices
    obtain ⟨setup, htext, hsetup⟩ := glueText_eq devices
    exact ⟨setup, _, hbuffers, Backend.map_eq_of_forall₂ (fun _ _ hb => hb.symbol) hbuffers, htext,
      hsetup⟩

/-- The glue defines the accessors of the buffers, if their symbols are plain. -/
theorem Program.accessorNames_hostGlue {text : String} (h : p.hostGlue = .ok text)
    (hplain : ∀ symbol ∈ p.accessorSymbols, IsPlainSymbol symbol) :
    accessorNames text =
      p.accessorSymbols.flatMap fun symbol => [readerName symbol, writerName symbol] := by
  obtain ⟨setup, buffers, -, hsymbols, rfl, hsetup⟩ := p.hostGlue_eq h
  rw [← hsymbols] at hplain ⊢
  rw [List.flatMap_map]
  exact (hsetup.append (.join fun b hb =>
    BufferSummary.accessors_defines (hplain _ (List.mem_map_of_mem hb)))).accessorNames_eq

/-- The host's pipeline adds no buffers and changes none. -/
theorem hostedBuffers_sublist {source : String} (h : canonicalizeSource source = .ok m)
    (hhost : Pipeline.host.run m = (.ok (), q)) :
    q.deviceBuffers.Sublist m.deviceBuffers ∧
      ∀ id ∈ q.deviceBuffers, (m.op id).SameHeader (q.op id) := by
  obtain ⟨p, hparse, -⟩ := canonicalizeSource_ok h
  obtain ⟨l, r, ⟨c⟩, hbuffers, hstructured⟩ := canonicalizeSource_run hparse h
  have hms := (c.fromLockIds_edits hbuffers hstructured).sound c.base_sound
  obtain ⟨hcircuits, -⟩ := c.host_circuits hbuffers hstructured hhost
  have hdevices := hcircuits.devices_eq EditRule.circuits_sparesDevices hms
  have hold : ∀ device ∈ q.devices, ∀ id ∈ q.findIn device "aie.buffer",
      id ∈ m.findIn device "aie.buffer" := fun device hdevice id hid =>
    hcircuits.findIn_of_old (EditRule.circuits_names.keeps_ne (by decide)) hms
      (Program.mem_walk_of_mem_devices hdevice) hid
  refine ⟨?_, fun id hid => ?_⟩
  · rw [Program.deviceBuffers, Program.deviceBuffers, ← hdevices]
    refine List.Sublist.flatMap_right _ fun device hdevice => hcircuits.sublist hms
      (hms.findIn_sublist (Program.mem_walk_of_mem_devices (hdevices ▸ hdevice)) _)
      ((hcircuits.sound hms).findIn_sublist (Program.mem_walk_of_mem_devices hdevice) _)
      (hold device hdevice)
  · obtain ⟨device, hdevice, hid⟩ := List.mem_flatMap.1 hid
    exact hcircuits.sameHeader hms (fun _ _ _ hop => hop)
      (hms.lt_size_of_walkIn (List.mem_filter.1 (hold device hdevice id hid)).1)

/-- **The accessors of the glue.** For every buffer of the devices of the routed program, the glue
ends with one pair of accessors that have its symbol, its place and its address. If the symbols
neither break lines nor open parentheses, the glue defines no other accessors. The names are
different exactly if the symbols of the buffers are. -/
theorem hostGlue_accessors {source text : String} (h : canonicalizeSource source = .ok m)
    (hhost : Pipeline.host.run m = (.ok (), q)) (htext : q.hostGlue = .ok text) :
    (q.deviceBuffers.Sublist m.deviceBuffers ∧
      ∀ id ∈ q.deviceBuffers, (m.op id).SameHeader (q.op id)) ∧
    (∃ setup buffers,
      List.Forall₂ (fun id b => b.IsOf q id) q.deviceBuffers buffers ∧
      text = setup ++ String.join (buffers.map BufferSummary.accessors) ∧
      accessorNames setup = []) ∧
    ((∀ symbol ∈ q.accessorSymbols, IsPlainSymbol symbol) → accessorNames text =
      q.accessorSymbols.flatMap fun symbol => [readerName symbol, writerName symbol]) ∧
    ((q.accessorSymbols.flatMap fun symbol => [readerName symbol, writerName symbol]).Nodup ↔
      q.accessorSymbols.Nodup) := by
  obtain ⟨setup, buffers, hbuffers, -, heq, hsetup⟩ := q.hostGlue_eq htext
  exact ⟨hostedBuffers_sublist h hhost, ⟨setup, buffers, hbuffers, heq, hsetup.accessorNames_eq⟩,
    q.accessorNames_hostGlue htext, nodup_accessors⟩

/-- A buffer with a name of its own, one without, and those of a FIFO on another device. -/
def accessedSource : String :=
  "aie.device(ipu) \x7b %t = aie.tile(0, 2) aie.buffer(%t) \x7bsize = 8\x7d\n" ++
  "%a = aie.buffer(%t) \x7bsize = 4, sym_name = data\x7d \x7d\n" ++
  "aie.device(ipu) \x7b %u = aie.tile(0, 2) %v = aie.tile(0, 3)\n" ++
  "aie.objectfifo(%u, %v) \x7bdepth = 2, size = 16, sym_name = f\x7d \x7d"

/-- All accessors of two devices have names of their own. -/
theorem hostGlue_accessors_fifo : ∃ m q text, canonicalizeSource accessedSource = .ok m ∧
    Pipeline.host.run m = (.ok (), q) ∧ q.hostGlue = .ok text ∧
    accessorNames text =
      ["mlir_aie_read_buffer_buffer", "mlir_aie_write_buffer_buffer", "mlir_aie_read_buffer_data",
        "mlir_aie_write_buffer_data", "mlir_aie_read_buffer_f_buff_0",
    "mlir_aie_write_buffer_f_buff_0",
        "mlir_aie_read_buffer_f_buff_1", "mlir_aie_write_buffer_f_buff_1"] ∧
    (accessorNames text).Nodup := by
  have hsource : ∃ m, canonicalizeSource accessedSource = .ok m ∧
      (Pipeline.host.run m).1.toOption = some () ∧
      (Pipeline.host.run m).2.accessorSymbols = ["buffer", "data", "f_buff_0", "f_buff_1"] ∧
      (Pipeline.host.run m).2.summaries.toOption.any (fun _ => decide True) = true :=
    exists_ok_of_any (by decide +kernel)
  obtain ⟨m, hm, hok, hsymbols, hsummaries⟩ := hsource
  have hrun := Pipeline.run_eq_ok hok
  obtain ⟨devices, hdevices, -⟩ := exists_ok_of_any hsummaries
  have htext : (Pipeline.host.run m).2.hostGlue = .ok (glueText devices) := by
    rw [Program.hostGlue, hdevices]
  obtain ⟨-, -, hnames, hnodup⟩ := hostGlue_accessors hm hrun htext
  rw [hsymbols] at hnames hnodup
  replace hnames := hnames (by decide)
  exact ⟨m, _, _, hm, hrun, htext, hnames, hnames ▸ hnodup.2 (by decide)⟩

/-- Two buffers with one symbol have accessors with the same names, at different addresses. -/
theorem hostGlue_repeats_accessors : ∃ m q text,
    canonicalizeSource ("aie.device(ipu) \x7b %t = aie.tile(0, 2)\n" ++
      "%a = aie.buffer(%t) \x7bsize = 4, sym_name = d\x7d\n" ++
      "%b = aie.buffer(%t) \x7bsize = 4, sym_name = d\x7d \x7d") = .ok m ∧
    Pipeline.host.run m = (.ok (), q) ∧ q.hostGlue = .ok text ∧
    q.deviceBuffers.map (fun id => (q.op id).intAttr? "address") = [some 0, some 16] ∧
    accessorNames text = ["mlir_aie_read_buffer_d", "mlir_aie_write_buffer_d",
      "mlir_aie_read_buffer_d", "mlir_aie_write_buffer_d"] ∧
    ¬ (accessorNames text).Nodup := by
  have hsource : ∃ m,
      canonicalizeSource ("aie.device(ipu) \x7b %t = aie.tile(0, 2)\n" ++
        "%a = aie.buffer(%t) \x7bsize = 4, sym_name = d\x7d\n" ++
        "%b = aie.buffer(%t) \x7bsize = 4, sym_name = d\x7d \x7d") = .ok m ∧
      (Pipeline.host.run m).1.toOption = some () ∧
      (Pipeline.host.run m).2.deviceBuffers.map
        (fun id => ((Pipeline.host.run m).2.op id).intAttr? "address") = [some 0, some 16] ∧
      (Pipeline.host.run m).2.accessorSymbols = ["d", "d"] ∧
      (Pipeline.host.run m).2.summaries.toOption.any (fun _ => decide True) = true :=
    exists_ok_of_any (by decide +kernel)
  obtain ⟨m, hm, hok, haddresses, hsymbols, hsummaries⟩ := hsource
  obtain ⟨devices, hdevices, -⟩ := exists_ok_of_any hsummaries
  have htext : (Pipeline.host.run m).2.hostGlue = .ok (glueText devices) := by
    rw [Program.hostGlue, hdevices]
  have hnames := Program.accessorNames_hostGlue htext (by rw [hsymbols]; decide)
  rw [hsymbols] at hnames
  exact ⟨m, _, _, hm, Pipeline.run_eq_ok hok, htext, haddresses, hnames, by rw [hnames]; decide⟩

end TileFlow
