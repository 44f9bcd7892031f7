import TileFlow.Emit.HostSources
import TileFlow.Proofs.Source.Texts
import TileFlow.Proofs.Stage.Pipeline
import TileFlow.Proofs.Text.Lines
import TileFlow.Source.Parser

/-!
# The same setup in both host sources

The glue and the configuration are written from the same summaries. The glue groups calls by the
function that makes them, over all devices; the configuration goes from device to device. A call
stands on a line of its own, which begins with the name of the function. The names of bundles may
break lines, but they are in upper case, and what comes after such a break is no call.

## Main definitions

* `SetupKind`: the kinds of setup that both texts replay.
* `SetupKind.callLines`: the lines of a text that are calls of a kind.
* `withConfigHandle`: a text with the handle of the glue replaced by the one of the configuration.

## Main results

* `glueText_callLines`, `configText_callLines`: the calls of each text, in order.
* `hostGlue_replays_deviceConfig`: both texts have the same calls of each kind, in the same order.
-/

namespace TileFlow

open Text

/-! ### Kinds of calls -/

/-- The kinds of setup that both texts replay. -/
inductive SetupKind where
  | reset
  | enable
  | lock
  | stream
  deriving DecidableEq, Repr

/-- The driver functions of a kind. -/
def SetupKind.functions : SetupKind → List String
  | .reset => ["XAie_CoreReset", "XAie_CoreUnreset"]
  | .enable => ["XAie_CoreEnable"]
  | .lock => ["XAie_LockSetValue"]
  | .stream =>
    ["XAie_StrmConnCctEnable", "XAie_StrmPktSwSlavePortEnable", "XAie_StrmPktSwSlaveSlotEnable",
      "XAie_StrmPktSwMstrPortEnable"]

/-- The beginning of the line of a call. -/
def callStart (function : String) : List Char :=
  ("  " ++ function ++ "(").toList

/-- Whether a line begins with a call of a kind. -/
def SetupKind.isCall (kind : SetupKind) (line : List Char) : Bool :=
  kind.functions.any fun f => (callStart f).isPrefixOf line

/-- The lines of a text that are calls of a kind. -/
def SetupKind.callLines (kind : SetupKind) (text : String) : List String :=
  (selectLines kind.isCall text.toList).map String.ofList

/-- A text with the handle of the glue replaced by the one of the configuration. -/
def withConfigHandle (text : String) : String :=
  String.ofList (replaceChars glueHandle.toList configHandle.toList text.toList)

/-- The kind of a call. Programs are loaded into cores by the glue alone. -/
def SetupCall.kind? : SetupCall → Option SetupKind
  | .coreReset _ | .coreUnreset _ => some .reset
  | .loadElf _ => none
  | .coreEnable _ => some .enable
  | .setLock _ => some .lock
  | .connect .. | .packetSource .. | .packetSlot .. | .packetSink .. => some .stream

/-- The calls of a kind that set up a device. -/
def DeviceSummary.setup (s : DeviceSummary) : SetupKind → List SetupCall
  | .reset => s.resetCalls
  | .enable => s.enableCalls
  | .lock => s.lockCalls
  | .stream => s.routeCalls

/-- The line that begins a call: all of it, unless the name of a bundle breaks the line. -/
def SetupCall.line (c : SetupCall) : String :=
  String.ofList ((c.render configHandle).toList.takeWhile (· ≠ '\n'))

/-! ### Numbers and places -/

/-- Characters that neither break a line nor begin the handle of the glue. -/
def IsPlainChars (text : List Char) : Prop :=
  '\n' ∉ text ∧ '&' ∉ text

/-- Plain texts in a row are plain. -/
theorem IsPlainChars.append {a b : List Char} (ha : IsPlainChars a) (hb : IsPlainChars b) :
    IsPlainChars (a ++ b) :=
  ⟨fun h => (List.mem_append.1 h).elim ha.1 hb.1, fun h => (List.mem_append.1 h).elim ha.2 hb.2⟩

instance (text : List Char) : Decidable (IsPlainChars text) :=
  inferInstanceAs (Decidable (_ ∧ _))

/-- The numeral of an integer is plain. -/
theorem isPlainChars_int (n : Int) : IsPlainChars (toString n).toList := by
  constructor <;> intro h <;> rcases isDigit_of_mem_toString h with h | h <;> revert h <;> decide

/-- The location of a tile is plain. -/
theorem Tile.isPlainChars_location (t : Tile) : IsPlainChars t.location.toList := by
  simp only [Tile.location, String.toList_append]
  exact ((((by decide : IsPlainChars _).append (isPlainChars_int _)).append (by decide)).append
    (isPlainChars_int _)).append (by decide)

/-- The symbol of a core is plain. -/
theorem Tile.isPlainChars_coreSymbol (t : Tile) : IsPlainChars t.coreSymbol.toList := by
  simp only [Tile.coreSymbol, String.toList_append]
  exact (((by decide : IsPlainChars _).append (isPlainChars_int _)).append (by decide)).append
    (isPlainChars_int _)

/-! ### One call -/

/-- What is written after the handle of a call: plain text, and names of bundles before commas. -/
inductive IsArguments : List Char → Prop where
  | nil : IsArguments []
  | plain {a b : List Char} : IsPlainChars a → IsArguments b → IsArguments (a ++ b)
  | bundle {name b : List Char} : (∀ c ∈ name, ¬ IsSmall c) → IsArguments b →
      IsArguments (name ++ ',' :: b)

/-- A plain text can stand among arguments. -/
theorem IsPlainChars.isArguments {a : List Char} (h : IsPlainChars a) : IsArguments a :=
  List.append_nil a ▸ .plain h .nil

/-- The separator of arguments is plain. -/
theorem isPlainChars_comma : IsPlainChars ", ".toList := by decide

/-- The end of a route can stand in front of arguments. -/
theorem RouteEnd.isArguments (e : RouteEnd) {b : List Char} (hb : IsArguments b) :
    IsArguments (e.bundleName.toList ++ (", ".toList ++ b)) :=
  .bundle (fun _ hc => not_isSmall_of_mem_toUpper hc)
    (.plain (by decide : IsPlainChars " ".toList) hb)

/-- The text of a call after its handle. -/
def SetupCall.tail (c : SetupCall) : List Char :=
  ", ".toList ++ (c.parts.2.toList ++ ");".toList)

/-- What follows the handle of a call are arguments. -/
theorem SetupCall.isArguments_tail (c : SetupCall) : IsArguments c.tail := by
  have hint (n : Int) {b : List Char} (hb : IsArguments b) :
      IsArguments ((toString n).toList ++ b) := .plain (isPlainChars_int n) hb
  have hcomma {b : List Char} (hb : IsArguments b) : IsArguments (", ".toList ++ b) :=
    .plain isPlainChars_comma hb
  have hclose : IsArguments ");".toList := (by decide : IsPlainChars _).isArguments
  refine hcomma ?_
  cases c <;> simp only [parts, String.toList_append, List.append_assoc]
  case coreReset t => exact .plain t.isPlainChars_location hclose
  case coreUnreset t => exact .plain t.isPlainChars_location hclose
  case coreEnable t => exact .plain t.isPlainChars_location hclose
  case loadElf t =>
    exact .plain t.isPlainChars_location (.plain (by decide) (.plain t.isPlainChars_coreSymbol
      (.plain (by decide) hclose)))
  case setLock l =>
    exact .plain l.tile.isPlainChars_location (.plain (by decide) (hint l.id (hcomma
      (hint l.initial (.plain (by decide) hclose)))))
  case connect t i o =>
    exact .plain t.isPlainChars_location (hcomma (i.isArguments (hint i.channel (hcomma
      (o.isArguments (hint o.channel hclose))))))
  case packetSource t i =>
    exact .plain t.isPlainChars_location (hcomma (i.isArguments (hint i.channel hclose)))
  case packetSlot t i id o =>
    exact .plain t.isPlainChars_location (hcomma (i.isArguments (hint i.channel
      (.plain (by decide) (hint id (.plain (by decide) (hint o.channel
        (.plain (by decide) hclose))))))))
  case packetSink t o =>
    exact .plain t.isPlainChars_location (hcomma (o.isArguments (hint o.channel
      (.plain (by decide) hclose))))

/-- The handle of the host glue begins with `&(`. -/
theorem glueHandle_toList : ∃ rest, glueHandle.toList = '&' :: '(' :: 'c' :: rest :=
  ⟨_, rfl⟩

/-- The name of a bundle has no occurrence of the handle, not even together with what follows. -/
theorem replaceChars_bundle {name b : List Char} (hname : 'c' ∉ name) (image : List Char) :
    replaceChars glueHandle.toList image (name ++ ',' :: b) =
      name ++ replaceChars glueHandle.toList image (',' :: b) := by
  obtain ⟨rest, hhandle⟩ := glueHandle_toList
  induction name with
  | nil => rfl
  | cons x xs ih =>
      rw [List.cons_append, replaceChars_cons ?_, ih fun h => hname (List.mem_cons_of_mem _ h),
        List.cons_append]
      -- An occurrence would have the first three characters of the handle in the name.
      rw [hhandle]
      intro hprefix
      have hsecond := (List.cons_prefix_cons.1 hprefix).2
      rcases xs with _ | ⟨y, ys⟩
      · exact absurd (List.cons_prefix_cons.1 hsecond).1 (by decide)
      have hthird := (List.cons_prefix_cons.1 hsecond).2
      rcases ys with _ | ⟨z, zs⟩
      · exact absurd (List.cons_prefix_cons.1 hthird).1 (by decide)
      · have hc : 'c' = z := (List.cons_prefix_cons.1 hthird).1
        exact hname (List.mem_cons_of_mem _ (List.mem_cons_of_mem _ (hc ▸ List.mem_cons_self)))

/-- The handle does not occur in the arguments of a call. -/
theorem IsArguments.replaceChars_eq {t : List Char} (h : IsArguments t) (image : List Char) :
    replaceChars glueHandle.toList image t = t := by
  obtain ⟨rest, hhandle⟩ := glueHandle_toList
  have hplain {a : List Char} (ha : IsPlainChars a) (b : List Char) :
      replaceChars glueHandle.toList image (a ++ b) =
        a ++ replaceChars glueHandle.toList image b := by
    rw [hhandle]
    exact replaceChars_append ha.2 b
  induction h with
  | nil => rfl
  | plain ha _ ih => rw [hplain ha, ih]
  | @bundle name b hname _ ih =>
      rw [replaceChars_bundle (fun h => hname 'c' h (by decide)), ← List.singleton_append,
        hplain (by decide), ih]

/-- A line without a small i before its first comma. The names of driver functions have one. -/
def IsQuiet (line : List Char) : Prop :=
  'i' ∉ line.takeWhile (· ≠ ',')

/-- A line of a call begins with the name that all driver functions have in common. -/
theorem SetupKind.isCall_prefix {kind : SetupKind} {line : List Char}
    (h : kind.isCall line = true) : "  XAie_".toList <+: line := by
  obtain ⟨f, hf, hprefix⟩ := List.any_eq_true.1 h
  have hall : ∀ f ∈ kind.functions, "  XAie_".toList <+: callStart f := by
    cases kind <;> decide
  exact (hall f hf).trans (List.isPrefixOf_iff_prefix.1 hprefix)

/-- A quiet line is no call of any kind. -/
theorem IsQuiet.not_isCall {kind : SetupKind} {line : List Char} (h : IsQuiet line) :
    kind.isCall line = false := by
  refine Bool.eq_false_iff.2 fun hcall => ?_
  obtain ⟨rest, rfl⟩ := kind.isCall_prefix hcall
  exact h (by simp)

/-- After a bundle that breaks lines there is no call until the next line break. -/
theorem quiet_splitChars {name b : List Char} (hname : 'i' ∉ name)
    (hb : ∀ line ∈ laterLines b, IsQuiet line) :
    ∀ line ∈ splitChars '\n' (name ++ ',' :: b), IsQuiet line := by
  induction name with
  | nil =>
      intro line hline
      rw [List.nil_append, splitChars_eq, laterLines_cons (by decide)] at hline
      rcases List.mem_cons.1 hline with rfl | hline
      · simp [IsQuiet]
      · exact hb line hline
  | cons c rest ih =>
      have hc : c ≠ 'i' := fun h => hname (h ▸ List.mem_cons_self)
      replace ih := ih fun h => hname (List.mem_cons_of_mem _ h)
      intro line hline
      rw [List.cons_append] at hline
      by_cases hbreak : c = '\n'
      · rw [splitChars, if_pos hbreak] at hline
        rcases List.mem_cons.1 hline with rfl | hline
        · exact List.not_mem_nil
        · exact ih line hline
      · rw [splitChars_eq, laterLines_cons hbreak, List.takeWhile_cons,
          if_pos (by simp [hbreak])] at hline
        rw [splitChars_eq, List.forall_mem_cons] at ih
        rcases List.mem_cons.1 hline with rfl | hline
        · rw [IsQuiet, List.takeWhile_cons]
          split
          · exact fun h => (List.mem_cons.1 h).elim (fun h => hc h.symm) ih.1
          · exact List.not_mem_nil
        · exact ih.2 line hline

/-- The lines that arguments break off are no calls. -/
theorem IsArguments.quiet {t : List Char} (h : IsArguments t) :
    ∀ line ∈ laterLines t, IsQuiet line := by
  induction h with
  | nil => exact fun line hline => absurd hline List.not_mem_nil
  | plain ha _ ih => rwa [laterLines_append ha.1]
  | bundle hname _ ih =>
      exact fun line hline => quiet_splitChars (fun h => hname 'i' h (by decide)) ih line
        (List.mem_of_mem_tail hline)

/-- The driver functions that are called. -/
def setupFunctions : List String :=
  ["XAie_CoreReset", "XAie_CoreUnreset", "XAie_LoadElf", "XAie_CoreEnable", "XAie_LockSetValue",
    "XAie_StrmConnCctEnable", "XAie_StrmPktSwSlavePortEnable", "XAie_StrmPktSwSlaveSlotEnable",
    "XAie_StrmPktSwMstrPortEnable"]

/-- The function of a call is one of the library. -/
theorem SetupCall.function_mem (c : SetupCall) : c.parts.1 ∈ setupFunctions := by
  cases c <;> simp [parts, setupFunctions]

/-- The functions of each kind are of the library. -/
theorem SetupKind.functions_subset (kind : SetupKind) : kind.functions ⊆ setupFunctions := by
  cases kind <;> simp [functions, setupFunctions]

/-- The function of a call tells its kind. -/
theorem SetupCall.mem_functions (kind : SetupKind) (c : SetupCall) :
    c.parts.1 ∈ kind.functions ↔ c.kind? = some kind := by
  cases kind <;> cases c <;> simp [SetupKind.functions, parts, kind?]

/-- A line that begins with a call of a function begins with a call of no other. -/
theorem SetupKind.isCall_callStart (kind : SetupKind) {f : String} (hf : f ∈ setupFunctions)
    (rest : List Char) : kind.isCall (callStart f ++ rest) = decide (f ∈ kind.functions) := by
  have hapart : ∀ f ∈ setupFunctions, ∀ g ∈ setupFunctions,
      callStart f <+: callStart g → f = g := by
    decide +kernel
  rw [Bool.eq_iff_iff, isCall, List.any_eq_true, decide_eq_true_iff]
  constructor
  · rintro ⟨g, hg, hprefix⟩
    have hgf := kind.functions_subset hg
    rcases List.prefix_or_prefix_of_prefix (List.isPrefixOf_iff_prefix.1 hprefix)
      (List.prefix_append (callStart f) rest) with h | h
    · exact hapart g hgf f hf h ▸ hg
    · exact hapart f hf g hgf h ▸ hg
  · exact fun h => ⟨f, h, List.isPrefixOf_iff_prefix.2 (List.prefix_append _ _)⟩

/-- The characters of a call on a handle, without the line break at the end. -/
def SetupCall.chars (handle : String) (c : SetupCall) : List Char :=
  callStart c.parts.1 ++ (handle.toList ++ c.tail)

/-- The characters of a call are its line and a line break. -/
theorem SetupCall.render_toList (handle : String) (c : SetupCall) :
    (c.render handle).toList = c.chars handle ++ ['\n'] := by
  have hend : ");\n".toList = ");".toList ++ ['\n'] := by decide
  simp only [render, chars, callStart, tail, String.toList_append, List.append_assoc]
  rfl

/-- A call begins neither with a line break nor with the handle of the glue. -/
theorem SetupCall.isPlainChars_callStart (c : SetupCall) : IsPlainChars (callStart c.parts.1) :=
  (by decide : ∀ f ∈ setupFunctions, IsPlainChars (callStart f)) _ c.function_mem

/-- With the other handle, the call of the glue is the one of the configuration. -/
theorem SetupCall.replaceChars_chars (c : SetupCall) :
    replaceChars glueHandle.toList configHandle.toList (c.chars glueHandle) =
      c.chars configHandle := by
  obtain ⟨rest, hhandle⟩ := glueHandle_toList
  rw [chars, hhandle, replaceChars_append c.isPlainChars_callStart.2, ← hhandle,
    replaceChars_pattern (by decide), c.isArguments_tail.replaceChars_eq, chars]

/-- A call has one line of its kind, and none of another kind. -/
theorem SetupCall.selectLines_chars (kind : SetupKind) (c : SetupCall) :
    selectLines kind.isCall (c.chars configHandle) =
      if c.kind? = some kind then [c.line.toList] else [] := by
  have hstart := c.isPlainChars_callStart.1
  have hlater : ∀ line ∈ laterLines (c.chars configHandle), kind.isCall line = false := by
    rw [chars, laterLines_append hstart, laterLines_append (by decide)]
    exact fun line hline => (c.isArguments_tail.quiet line hline).not_isCall
  have hkeep : ∀ d ∈ callStart c.parts.1, decide (d ≠ '\n') = true := fun d hd =>
    decide_eq_true fun h => hstart (h ▸ hd)
  have hfirst : c.line.toList = (c.chars configHandle).takeWhile (· ≠ '\n') := by
    rw [line, String.toList_ofList, render_toList, takeWhile_append_break]
  have hline : c.line.toList = callStart c.parts.1 ++
      (configHandle.toList ++ c.tail).takeWhile (· ≠ '\n') := by
    have hkeep : ∀ d ∈ callStart c.parts.1, decide (d ≠ '\n') = true := fun d hd =>
      decide_eq_true fun h => hstart (h ▸ hd)
    rw [hfirst, chars, List.takeWhile_append_of_pos hkeep]
  rw [selectLines_eq hlater, ← hfirst, hline, kind.isCall_callStart c.function_mem]
  simp only [decide_eq_true_eq, c.mem_functions]

/-! ### Lines of the texts -/

/-- How the other lines begin that are not empty. -/
def otherStarts : List String :=
  ["//", "#", "int", "void ", "  u32", "  return", "  XAie_DataMem", "  // device ", "\x7d"]

/-- The beginning of a line that is no call. -/
structure IsBegun (line : List Char) : Prop where
  unbroken : '\n' ∉ line
  start : ∃ start ∈ otherStarts, start.toList <+: line

instance (line : List Char) : Decidable (IsBegun line) :=
  decidable_of_iff ('\n' ∉ line ∧ ∃ start ∈ otherStarts, start.toList <+: line)
    ⟨fun h => ⟨h.1, h.2⟩, fun h => ⟨h.unbroken, h.start⟩⟩

/-- A line that is begun stays so when text without line break follows. -/
theorem IsBegun.append {a b : List Char} (h : IsBegun a) (hb : '\n' ∉ b) : IsBegun (a ++ b) where
  unbroken hmem := (List.mem_append.1 hmem).elim h.unbroken hb
  start := h.start.imp fun _ hstart => ⟨hstart.1, hstart.2.trans (List.prefix_append _ _)⟩

/-- A line that is no call. -/
def IsOther (line : List Char) : Prop :=
  line = [] ∨ IsBegun line

instance (line : List Char) : Decidable (IsOther line) :=
  inferInstanceAs (Decidable (_ ∨ _))

/-- A line that is no call is one line. -/
theorem IsOther.unbroken {line : List Char} (h : IsOther line) : '\n' ∉ line :=
  h.elim (fun hnil => hnil ▸ List.not_mem_nil) (·.unbroken)

/-- A line that is no call is selected for no kind. -/
theorem IsOther.selectLines_eq_nil {line : List Char} (h : IsOther line) (kind : SetupKind) :
    selectLines kind.isCall line = [] := by
  have hapart : ∀ f ∈ setupFunctions, ∀ start ∈ otherStarts,
      ¬ callStart f <+: start.toList ∧ ¬ start.toList <+: callStart f := by decide +kernel
  have hcall : kind.isCall line = false := by
    refine Bool.eq_false_iff.2 fun hcall => ?_
    obtain ⟨f, hf, hprefix⟩ := List.any_eq_true.1 hcall
    replace hf := kind.functions_subset hf
    replace hprefix := List.isPrefixOf_iff_prefix.1 hprefix
    rcases h with rfl | hbegun
    · exact absurd (List.prefix_nil.1 hprefix) (by simp [callStart])
    · obtain ⟨start, hstart, hline⟩ := hbegun.start
      have := hapart f hf start hstart
      exact (List.prefix_or_prefix_of_prefix hprefix hline).elim this.1 this.2
  rw [selectLines, splitChars_of_notMem h.unbroken, List.filter_cons, hcall]
  rfl

/-- Replacing the handle makes no call of another line. -/
theorem IsOther.replaceChars {line : List Char} (h : IsOther line) :
    IsOther (replaceChars glueHandle.toList configHandle.toList line) := by
  rcases h with rfl | hbegun
  · exact .inl rfl
  · obtain ⟨start, hstart, rest, rfl⟩ := hbegun.start
    obtain ⟨others, hhandle⟩ := glueHandle_toList
    refine .inr ⟨fun hmem => ?_, start, hstart, ?_⟩
    · exact (mem_of_mem_replaceFrom hmem).elim
        (fun h => absurd h (by decide : '\n' ∉ configHandle.toList)) hbegun.unbroken
    · rw [hhandle, replaceChars_append
        ((by decide : ∀ start ∈ otherStarts, '&' ∉ start.toList) start hstart)]
      exact List.prefix_append _ _

/-- A line of a text: a call, or something else. -/
inductive HostLine where
  | call (c : SetupCall)
  | other (line : List Char)

/-- A line with a handle, without the line break at the end. -/
def HostLine.chars (handle : String) : HostLine → List Char
  | .call c => c.chars handle
  | .other line => line

/-- The call of a line. -/
def HostLine.call? : HostLine → Option SetupCall
  | .call c => some c
  | .other _ => none

/-- A text that makes some calls on a handle, one after another, with other lines between them. -/
def Makes (handle : String) (calls : List SetupCall) (text : String) : Prop :=
  ∃ lines : List HostLine, text.toList = joinLines (lines.map (·.chars handle)) ∧
    (∀ line, .other line ∈ lines → IsOther line) ∧ lines.filterMap (·.call?) = calls

namespace Makes

variable {handle text text' : String} {calls calls' : List SetupCall}

/-- Two texts in a row make the calls of both. -/
theorem append (h : Makes handle calls text) (h' : Makes handle calls' text') :
    Makes handle (calls ++ calls') (text ++ text') := by
  obtain ⟨lines, htext, hother, rfl⟩ := h
  obtain ⟨lines', htext', hother', rfl⟩ := h'
  refine ⟨lines ++ lines', ?_, fun line hline => ?_, List.filterMap_append⟩
  · rw [String.toList_append, htext, htext', List.map_append, joinLines_append]
  · exact (List.mem_append.1 hline).elim (hother line) (hother' line)

/-- Texts put together make the calls of each, in order. -/
theorem join {α : Type} {l : List α} {f : α → List SetupCall} {g : α → String}
    (h : ∀ a ∈ l, Makes handle (f a) (g a)) :
    Makes handle (l.flatMap f) (String.join (l.map g)) := by
  induction l with
  | nil => exact ⟨[], rfl, fun _ hline => absurd hline List.not_mem_nil, rfl⟩
  | cons a rest ih =>
      rw [List.flatMap_cons, List.map_cons, String.join_cons]
      exact (h a List.mem_cons_self).append (ih fun b hb => h b (List.mem_cons_of_mem _ hb))

/-- The text of a list of calls makes them. -/
theorem renderCalls (handle : String) (calls : List SetupCall) :
    Makes handle calls (renderCalls handle calls) := by
  have hone : ∀ c ∈ calls, Makes handle [c] (c.render handle) := fun c _ => by
    refine ⟨[.call c], ?_, fun line hline => ?_, rfl⟩
    · rw [c.render_toList, List.map_singleton, joinLines_cons]
      rfl
    · exact absurd (List.mem_singleton.1 hline) (by simp)
  have := join hone
  rwa [List.flatMap_singleton'] at this

/-- Lines that make no call. -/
theorem others (lines : List (List Char)) (htext : text.toList = joinLines lines)
    (h : ∀ line ∈ lines, IsOther line) : Makes handle [] text := by
  refine ⟨lines.map .other, ?_, fun line hmem => ?_, ?_⟩
  · rw [htext, List.map_map]
    exact congrArg joinLines (List.map_id lines).symm
  · obtain ⟨_, hline, heq⟩ := List.mem_map.1 hmem
    cases heq
    exact h _ hline
  · rw [List.filterMap_map]
    exact List.filterMap_eq_nil_iff.2 fun _ _ => rfl

/-- A line that makes no call, with the line break at its end. -/
theorem line (h : IsBegun text.toList) (hend : text'.toList.getLast? = some '\n')
    (hlast : '\n' ∉ text'.toList.dropLast) : Makes handle [] (text ++ text') := by
  obtain ⟨last, hlast'⟩ := List.getLast?_eq_some_iff.1 hend
  refine others [text.toList ++ last] ?_ fun line hline => ?_
  · rw [String.toList_append, hlast', joinLines_cons, joinLines_nil, List.append_assoc]
  · cases List.mem_singleton.1 hline
    rw [hlast', List.dropLast_concat] at hlast
    exact .inr (h.append hlast)

end Makes

/-- The lines of the calls of a kind among some calls. -/
def setupLines (kind : SetupKind) (calls : List SetupCall) : List String :=
  (calls.filter fun c => c.kind? = some kind).map (·.line)

/-- The calls that are read from the lines of a text. -/
theorem callLines_joinLines (kind : SetupKind) {lines : List HostLine}
    (h : ∀ line, .other line ∈ lines → IsOther line) {text : String}
    (htext : text.toList = joinLines (lines.map (·.chars configHandle))) :
    kind.callLines text = setupLines kind (lines.filterMap (·.call?)) := by
  have hempty : kind.isCall [] = false := by cases kind <;> decide
  have hline : ∀ line ∈ lines, selectLines kind.isCall (line.chars configHandle) =
      (setupLines kind line.call?.toList).map String.toList := fun line hline => by
    cases line with
    | call c =>
        rw [HostLine.chars, c.selectLines_chars kind]
        by_cases hc : c.kind? = some kind <;> simp [HostLine.call?, setupLines, hc]
    | other line => exact (h line hline).selectLines_eq_nil kind
  rw [SetupKind.callLines, htext, selectLines_joinLines hempty, List.flatMap_map]
  clear htext
  induction lines with
  | nil => rfl
  | cons line rest ih =>
      rw [List.flatMap_cons, List.map_append, ih (fun l hl => h l (List.mem_cons_of_mem _ hl))
        fun l hl => hline l (List.mem_cons_of_mem _ hl), hline line List.mem_cons_self]
      rcases hcall : line.call? with _ | c
      · simp [setupLines, hcall]
      · by_cases hc : c.kind? = some kind <;> simp [setupLines, hcall, hc]

/-- A text with the handle of the configuration shows the calls that it makes. -/
theorem Makes.callLines {text : String} {calls : List SetupCall}
    (h : Makes configHandle calls text) (kind : SetupKind) :
    kind.callLines text = setupLines kind calls := by
  obtain ⟨lines, htext, hother, rfl⟩ := h
  exact callLines_joinLines kind hother htext

/-- A line of the glue with the handle replaced. Calls have it put in when they are written. -/
def HostLine.withConfigHandle : HostLine → HostLine
  | .call c => .call c
  | .other line => .other (replaceChars glueHandle.toList configHandle.toList line)

/-- Replacing the handle in a line gives the line with the other handle. -/
theorem HostLine.chars_withConfigHandle (line : HostLine) :
    replaceChars glueHandle.toList configHandle.toList (line.chars glueHandle) =
      line.withConfigHandle.chars configHandle := by
  cases line with
  | call c => exact c.replaceChars_chars
  | other line => rfl

/-- The call of a line is the same under the other handle. -/
theorem HostLine.call?_withConfigHandle (line : HostLine) :
    line.withConfigHandle.call? = line.call? := by
  cases line <;> rfl

/-- A text with the handle of the glue makes the same calls on the other handle. -/
theorem Makes.withConfigHandle {text : String} {calls : List SetupCall}
    (h : Makes glueHandle calls text) : Makes configHandle calls (withConfigHandle text) := by
  obtain ⟨lines, htext, hother, rfl⟩ := h
  refine ⟨lines.map (·.withConfigHandle), ?_, fun line hline => ?_, ?_⟩
  · rw [TileFlow.withConfigHandle, String.toList_ofList, htext,
      replaceChars_joinLines (by decide) (by decide), List.map_map, List.map_map]
    exact congrArg joinLines (List.map_congr_left fun line _ => line.chars_withConfigHandle)
  · obtain ⟨old, hold, heq⟩ := List.mem_map.1 hline
    cases old with
    | call c => cases heq
    | other old =>
        cases heq
        exact (hother old hold).replaceChars
  · simp only [List.filterMap_map, Function.comp_def, HostLine.call?_withConfigHandle]

/-! ### The calls of both texts -/

/-- The text of a tile is one line. -/
theorem Tile.isUnbroken_render (t : Tile) : IsUnbroken t.render :=
  ((((by decide : IsUnbroken "(").append (isPlainChars_int _).1).append (by decide)).append
    (isPlainChars_int _).1).append (by decide)

/-- A text that begins a line, with a text after it that does not break the line. -/
theorem IsBegun.text {a b : String} (h : IsBegun a.toList) (hb : IsUnbroken b) :
    IsBegun (a ++ b).toList := by
  rw [String.toList_append]
  exact h.append hb

/-- A function of the glue makes the calls of its body. -/
theorem glueFunction_makes (name : String) (hname : IsUnbroken name)
    (calls : List SetupCall) : Makes glueHandle calls (glueFunction name calls) := by
  have hstart : IsBegun "int ".toList := by decide
  have hhead : Makes glueHandle [] s!"int {name}(aie_libxaie_ctx_t *ctx) \x7b\n" :=
    .line (hstart.text hname) (by decide) (by decide)
  have hend : Makes glueHandle [] "  return 0;\n\x7d\n" :=
    .others ["  return 0;".toList, "\x7d".toList] (by decide) (by decide)
  have := (hhead.append (.renderCalls glueHandle calls)).append hend
  rwa [List.nil_append, List.append_nil] at this

/-- The functions for a buffer make no calls, if its symbol does not break lines. -/
theorem BufferSummary.accessors_makes (b : BufferSummary) (hsymbol : IsUnbroken b.symbol) :
    Makes glueHandle [] b.accessors := by
  have hlocation := b.tile.isPlainChars_location.1
  have haddress := isUnbroken_hexAddress b.address
  unfold accessors
  generalize hexAddress b.address = address at haddress ⊢
  have hbreak : Makes glueHandle [] "\n" := .others [[]] rfl (by decide +kernel)
  have hcomment : Makes glueHandle []
      s!"// {b.size} bytes at {address} on tile {b.tile.render}\n" :=
    .line (((((by decide : IsBegun "// ".toList).text (isPlainChars_int _).1).text
      (by decide +kernel)).text haddress).text (by decide +kernel) |>.text b.tile.isUnbroken_render)
      (by decide +kernel) (by decide +kernel)
  have hread : Makes glueHandle []
      s!"int32_t mlir_aie_read_buffer_{b.symbol}(aie_libxaie_ctx_t *ctx, int index) \x7b\n" :=
    .line ((by decide : IsBegun "int32_t mlir_aie_read_buffer_".toList).text hsymbol)
      (by decide +kernel) (by decide +kernel)
  have hvalue : Makes glueHandle [] "  u32 value;\n" :=
    .others ["  u32 value;".toList] (by decide +kernel) (by decide +kernel)
  have hload : Makes glueHandle [] 
      s!"  XAie_DataMemRdWord({glueHandle}, {b.tile.location}, {address} + (index * 4), &value);\n" :=
    .line ((((by decide : IsBegun "  XAie_DataMemRdWord(".toList).text (by decide +kernel)).text
      (by decide +kernel)).text hlocation |>.text (by decide +kernel) |>.text haddress)
        (by decide +kernel) (by decide +kernel)
  have hreturn : Makes glueHandle [] "  return value;\n\x7d\n" :=
    .others ["  return value;".toList, "\x7d".toList] (by decide +kernel) (by decide +kernel)
  have hwrite : Makes glueHandle []
      (s!"void mlir_aie_write_buffer_{b.symbol}(aie_libxaie_ctx_t *ctx, int index, int32_t value) "
        ++
        "\x7b\n") :=
    .line (((by decide : IsBegun "void mlir_aie_write_buffer_".toList).text hsymbol).text
      (by decide +kernel)) (by decide +kernel) (by decide +kernel)
  have hstore : Makes glueHandle []
      s!"  XAie_DataMemWrWord({glueHandle}, {b.tile.location}, {address} + (index * 4), value);\n" :=
    .line ((((by decide : IsBegun "  XAie_DataMemWrWord(".toList).text (by decide +kernel)).text
      (by decide +kernel)).text hlocation |>.text (by decide +kernel) |>.text haddress)
        (by decide +kernel) (by decide +kernel)
  have hend : Makes glueHandle [] "\x7d\n" :=
    .others ["\x7d".toList] (by decide +kernel) (by decide +kernel)
  have := (((((((hbreak.append hcomment).append hread).append hvalue).append hload).append
    hreturn).append hwrite).append hstore).append hend
  have hid : ∀ s : String, toString s = s := fun _ => rfl
  have hfirst : "\n" ++ "// " = "\n// " := by decide
  simpa only [List.append_nil, ← String.append_assoc, hid, hfirst] using this

/-- The host glue makes its calls function by function. -/
theorem glueText_makes {devices : List DeviceSummary}
    (h : ∀ d ∈ devices, ∀ b ∈ d.buffers, IsUnbroken b.symbol) :
    Makes glueHandle (devices.flatMap (·.loadCalls) ++ devices.flatMap (·.enableCalls) ++
      devices.flatMap (·.lockCalls) ++ devices.flatMap (·.routeCalls)) (glueText devices) := by
  have hhead : Makes glueHandle []
      "// Generated libxaie configuration; include from the host program.\n\n" :=
    .others ["// Generated libxaie configuration; include from the host program.".toList, []]
      (by decide +kernel) (by decide +kernel)
  have hbreak : Makes glueHandle [] "\n" := .others [[]] rfl (by decide)
  have hload := glueFunction_makes "mlir_aie_configure_cores" (by decide)
    (devices.flatMap (·.loadCalls))
  have henable := glueFunction_makes "mlir_aie_start_cores" (by decide)
    (devices.flatMap (·.enableCalls))
  have hlock := glueFunction_makes "mlir_aie_initialize_locks" (by decide)
    (devices.flatMap (·.lockCalls))
  have hroute := glueFunction_makes "mlir_aie_configure_switchboxes" (by decide)
    (devices.flatMap (·.routeCalls))
  have hbuffers : Makes glueHandle []
      (.join ((devices.flatMap (·.buffers)).map (·.accessors))) := by
    have hall : ∀ b ∈ devices.flatMap (·.buffers), Makes glueHandle [] b.accessors := fun b hb => by
      obtain ⟨d, hd, hb⟩ := List.mem_flatMap.1 hb
      exact b.accessors_makes (h d hd b hb)
    have := Makes.join hall
    rwa [List.flatMap_eq_nil_iff.2 fun _ _ => rfl] at this
  unfold glueText
  have := (((((((hhead.append hload).append hbreak).append henable).append hbreak).append
    hlock).append hbreak).append hroute).append hbuffers
  simpa only [List.nil_append, List.append_nil] using this

/-- The device configuration makes its calls device by device. -/
theorem configText_makes {devices : List DeviceSummary}
    (h : ∀ d ∈ devices, IsUnbroken d.model.name) :
    Makes configHandle (devices.flatMap (fun d => d.resetCalls ++ d.lockCalls ++ d.routeCalls) ++
      devices.flatMap (·.enableCalls)) (configText devices) := by
  have hhead : Makes configHandle []
      "// Generated device configuration.\n#include <xaiengine.h>\n\n" :=
    .others ["// Generated device configuration.".toList, "#include <xaiengine.h>".toList, []]
      (by decide +kernel) (by decide +kernel)
  have hinit : Makes configHandle
      [] s!"void addInitConfigToCDO(XAie_DevInst *{configHandle}) \x7b\n" :=
    .others [s!"void addInitConfigToCDO(XAie_DevInst *{configHandle}) \x7b".toList]
      (by decide +kernel) (by decide +kernel)
  have henable : Makes configHandle
      [] s!"void addCoreEnableToCDO(XAie_DevInst *{configHandle}) \x7b\n" :=
    .others [s!"void addCoreEnableToCDO(XAie_DevInst *{configHandle}) \x7b".toList]
      (by decide +kernel) (by decide +kernel)
  have hbetween : Makes configHandle [] "\x7d\n\n" :=
    .others ["\x7d".toList, []] (by decide) (by decide)
  have hend : Makes configHandle [] "\x7d\n" :=
    .others ["\x7d".toList] (by decide) (by decide)
  have hdevice : ∀ d ∈ devices, Makes configHandle (d.resetCalls ++ d.lockCalls ++ d.routeCalls)
      d.configLines := fun d hd => by
    have hname : Makes configHandle [] s!"  // device {d.model.name}\n" :=
      .line ((by decide : IsBegun "  // device ".toList).text (h d hd)) (by decide) (by decide)
    exact hname.append (.renderCalls configHandle _)
  have hdevices := Makes.join hdevice
  unfold configText
  have := (((((hhead.append hinit).append hdevices).append hbetween).append henable).append
    (.renderCalls configHandle (devices.flatMap (·.enableCalls)))).append hend
  simpa only [List.nil_append, List.append_nil, ← String.append_assoc] using this

/-! ### The same setup -/

/-- Setup lines of two lists of calls. -/
theorem setupLines_append (kind : SetupKind) (calls others : List SetupCall) :
    setupLines kind (calls ++ others) = setupLines kind calls ++ setupLines kind others := by
  rw [setupLines, List.filter_append, List.map_append]
  rfl

/-- Setup lines of calls made for each element of a list. -/
theorem setupLines_flatMap {α : Type} (kind : SetupKind) (l : List α) (f : α → List SetupCall) :
    setupLines kind (l.flatMap f) = l.flatMap fun a => setupLines kind (f a) := by
  induction l with
  | nil => rfl
  | cons a rest ih => rw [List.flatMap_cons, setupLines_append, ih, List.flatMap_cons]

/-- A setup call is of the kind it was asked for. -/
theorem DeviceSummary.kind?_of_mem_setup {d : DeviceSummary} {kind : SetupKind} {c : SetupCall}
    (hc : c ∈ d.setup kind) : c.kind? = some kind := by
  cases kind with
  | reset =>
      obtain ⟨t, -, hc⟩ := List.mem_flatMap.1 hc
      simp only [List.mem_cons, List.not_mem_nil, or_false] at hc
      rcases hc with rfl | rfl <;> rfl
  | enable =>
      obtain ⟨t, -, rfl⟩ := List.mem_map.1 hc
      rfl
  | lock =>
      obtain ⟨l, -, rfl⟩ := List.mem_map.1 hc
      rfl
  | stream =>
      obtain ⟨r, -, hc⟩ := List.mem_flatMap.1 hc
      rw [RouteSummary.calls] at hc
      split at hc <;> simp only [List.mem_cons, List.not_mem_nil, or_false] at hc
      · cases hc
        rfl
      · rcases hc with rfl | rfl | rfl <;> rfl

/-- Among setup calls of one kind there are lines of this kind only. -/
theorem DeviceSummary.setupLines_setup (kind other : SetupKind) (d : DeviceSummary) :
    setupLines kind (d.setup other) = if other = kind then (d.setup kind).map (·.line) else [] := by
  rw [setupLines]
  split
  · rename_i h
    rw [h, List.filter_eq_self.2 fun c hc => decide_eq_true (d.kind?_of_mem_setup hc)]
  · rename_i h
    have hno : ∀ c ∈ d.setup other, ¬ decide (c.kind? = some kind) = true := fun c hc => by
      simpa [d.kind?_of_mem_setup hc] using h
    rw [List.filter_eq_nil_iff.2 hno, List.map_nil]

/-- Loading the programs of cores is a setup of no kind. -/
theorem DeviceSummary.setupLines_loadCalls (kind : SetupKind) (d : DeviceSummary) :
    setupLines kind d.loadCalls = setupLines kind (d.setup .reset) := by
  rw [loadCalls, setup, resetCalls, setupLines_flatMap, setupLines_flatMap]
  rfl

/-- The lines of a kind that set up some devices. -/
def setupOf (kind : SetupKind) (devices : List DeviceSummary) : List String :=
  devices.flatMap fun d => (d.setup kind).map (·.line)

/-- The glue makes the calls of each kind, in order. -/
theorem glueText_callLines {devices : List DeviceSummary}
    (h : ∀ d ∈ devices, ∀ b ∈ d.buffers, IsUnbroken b.symbol) (kind : SetupKind) :
    kind.callLines (withConfigHandle (glueText devices)) = setupOf kind devices := by
  have henable := DeviceSummary.setupLines_setup kind .enable
  have hlock := DeviceSummary.setupLines_setup kind .lock
  have hstream := DeviceSummary.setupLines_setup kind .stream
  simp only [DeviceSummary.setup] at henable hlock hstream
  rw [(glueText_makes h).withConfigHandle.callLines kind]
  simp only [setupLines_append, setupLines_flatMap, DeviceSummary.setupLines_loadCalls,
    DeviceSummary.setupLines_setup, henable, hlock, hstream]
  have hnone : devices.flatMap (fun _ => ([] : List String)) = [] :=
    List.flatMap_eq_nil_iff.2 fun _ _ => rfl
  cases kind <;> simp [setupOf, DeviceSummary.setup, hnone]

/-- The configuration makes the calls of each kind, in order. -/
theorem configText_callLines {devices : List DeviceSummary}
    (h : ∀ d ∈ devices, IsUnbroken d.model.name) (kind : SetupKind) :
    kind.callLines (configText devices) = setupOf kind devices := by
  have hreset := DeviceSummary.setupLines_setup kind .reset
  have henable := DeviceSummary.setupLines_setup kind .enable
  have hlock := DeviceSummary.setupLines_setup kind .lock
  have hstream := DeviceSummary.setupLines_setup kind .stream
  simp only [DeviceSummary.setup] at hreset henable hlock hstream
  rw [(configText_makes h).callLines kind]
  simp only [setupLines_append, setupLines_flatMap, hreset, henable, hlock, hstream]
  have hnone : devices.flatMap (fun _ => ([] : List String)) = [] :=
    List.flatMap_eq_nil_iff.2 fun _ _ => rfl
  cases kind <;> simp [setupOf, DeviceSummary.setup, hnone]

namespace Program

variable {p : Program}

/-- An operation is placed when a tile owns it. -/
theorem placed_ok_iff {id : OpId} {tile : Tile} :
    p.placed id = .ok tile ↔ p.owningTile? id = some tile := by
  rw [placed]
  cases p.owningTile? id <;> simp

/-- The summary of a buffer has its symbol, its place and its address. -/
theorem bufferSummary_ok {id : OpId} {b : BufferSummary} (h : p.bufferSummary id = .ok b) :
    b.symbol = (p.op id).symbolName?.getD "buffer" ∧ p.owningTile? id = some b.tile ∧
      (p.op id).intAttr? "address" = some b.address := by
  rw [bufferSummary] at h
  split at h
  · cases h
  · rename_i address haddress
    obtain ⟨tile, htile, h⟩ := Except.bind_ok_iff.1 h
    cases h
    exact ⟨rfl, placed_ok_iff.1 htile, haddress⟩

/-- The summary of a device has its family, and the summaries of its buffers. -/
theorem summary_ok {device : OpId} {d : DeviceSummary} (h : p.summary device = .ok d) :
    d.model = p.modelOf device ∧
      (p.findIn device "aie.buffer").mapM p.bufferSummary = .ok d.buffers := by
  rw [summary] at h
  split at h
  · cases h
  · obtain ⟨cores, -, h⟩ := Except.bind_ok_iff.1 h
    obtain ⟨locks, -, h⟩ := Except.bind_ok_iff.1 h
    obtain ⟨buffers, hbuffers, h⟩ := Except.bind_ok_iff.1 h
    obtain ⟨routes, -, h⟩ := Except.bind_ok_iff.1 h
    cases h
    exact ⟨rfl, hbuffers⟩

end Program

/-- **The same setup twice.** The glue and the configuration are written for the same programs, and
for others there is the same cause in both errors. If neither the families of the devices nor the
symbols of buffers break lines, then with one handle both texts have the same calls of each kind
in the same order, which are those that the summaries of the devices ask for. -/
theorem hostGlue_replays_deviceConfig (p : Program) :
    ((∃ glue, p.hostGlue = .ok glue) ↔ ∃ config, p.deviceConfig = .ok config) ∧
    (∀ e e', p.hostGlue = .error e → p.deviceConfig = .error e' →
      ∃ cause : String, e.message = s!"Translation to xaie failed: {cause}" ∧
        e'.message = s!"Translation to cdo failed: {cause}") ∧
    ∀ glue config, p.hostGlue = .ok glue → p.deviceConfig = .ok config →
      (∀ device ∈ p.devices, '\n' ∉ (p.modelOf device).name.toList) →
      (∀ device ∈ p.devices, ∀ id ∈ p.findIn device "aie.buffer", ∀ symbol,
        (p.op id).symbolName? = some symbol → '\n' ∉ symbol.toList) →
      ∃ devices, p.summaries = .ok devices ∧ ∀ kind : SetupKind,
        kind.callLines (withConfigHandle glue) = kind.callLines config ∧
          kind.callLines config = devices.flatMap fun d => (d.setup kind).map (·.line) := by
  rw [Program.hostGlue, Program.deviceConfig]
  rcases hsummaries : p.summaries with cause | devices
  · refine ⟨by simp, fun e e' he he' => ⟨cause.message, ?_⟩, fun _ _ hglue => by simp at hglue⟩
    cases he
    cases he'
    exact ⟨rfl, rfl⟩
  · refine ⟨by simp, fun e e' he => by simp at he,
      fun glue config hglue hconfig hnames hsymbols => ?_⟩
    cases hglue
    cases hconfig
    have hdevice : ∀ d ∈ devices, IsUnbroken d.model.name ∧ ∀ b ∈ d.buffers,
        IsUnbroken b.symbol := by
      intro d hd
      obtain ⟨device, hmem, hsummary⟩ := Except.exists_of_mem_mapM hsummaries hd
      obtain ⟨hmodel, hbuffers⟩ := Program.summary_ok hsummary
      refine ⟨hmodel ▸ hnames device hmem, fun b hb => ?_⟩
      obtain ⟨id, hid, hb⟩ := Except.exists_of_mem_mapM hbuffers hb
      rw [(Program.bufferSummary_ok hb).1]
      rcases hname : (p.op id).symbolName? with _ | symbol
      · decide
      · exact hsymbols device hmem id hid symbol hname
    refine ⟨devices, rfl, fun kind => ?_⟩
    have hconfig := configText_callLines (fun d hd => (hdevice d hd).1) kind
    exact ⟨(glueText_callLines (fun d hd => (hdevice d hd).2) kind).trans hconfig.symm, hconfig⟩

/-- Two devices with a lock, a buffer, a circuit and packets. -/
def hostSource : String :=
  "aie.device(ipu) \x7b %t = aie.tile(0, 2) %l = aie.lock(%t, 2) " ++
  "aie.switchbox(%t) \x7b aie.connect(DMA, 0, East, 0) \x7d \x7d aie.device(ipu) \x7b " ++
  "%u = aie.tile(1, 3) %b = aie.buffer(%u) \x7baddress = 64\x7d " ++
  "aie.switchbox(%u) \x7b aie.packet_rule(West, 0, DMA, 1) \x7d \x7d"

/-- The setup of two devices is the same in both texts, with four calls for their switchboxes. -/
theorem hostGlue_replays_deviceConfig_two : ∃ p glue config, Source.parse hostSource = .ok p ∧
    p.devices.length = 2 ∧ p.hostGlue = .ok glue ∧ p.deviceConfig = .ok config ∧
    (∀ kind : SetupKind, kind.callLines (withConfigHandle glue) = kind.callLines config) ∧
    (SetupKind.stream.callLines config).length = 4 := by
  have hsource : ∃ p, Source.parse hostSource = .ok p ∧ p.devices.length = 2 ∧
      p.summaries.toOption.any
        (fun devices => decide ((devices.flatMap (·.setup .stream)).length = 4)) = true ∧
      (∀ device ∈ p.devices, '\n' ∉ (p.modelOf device).name.toList) ∧
      ∀ device ∈ p.devices, ∀ id ∈ p.findIn device "aie.buffer",
        (p.op id).symbolName? = some "b" :=
    exists_ok_of_any (by decide +kernel)
  obtain ⟨p, hp, htwo, hsummaries, hnames, hsymbols⟩ := hsource
  obtain ⟨devices, hsummaries, hfour⟩ := exists_ok_of_any hsummaries
  have hglue : p.hostGlue = .ok (glueText devices) := by rw [Program.hostGlue, hsummaries]
  have hconfig : p.deviceConfig = .ok (configText devices) := by
    rw [Program.deviceConfig, hsummaries]
  obtain ⟨_, hdevices, hcalls⟩ := (hostGlue_replays_deviceConfig p).2.2 _ _ hglue hconfig hnames
    fun device hdevice id hid symbol hsymbol => by
      rw [hsymbols device hdevice id hid] at hsymbol
      cases hsymbol
      decide
  cases hsummaries.symm.trans hdevices
  refine ⟨p, _, _, hp, htwo, hglue, hconfig, fun kind => (hcalls kind).1, ?_⟩
  rw [(hcalls .stream).2, ← List.map_flatMap, List.length_map, hfour]

end TileFlow
