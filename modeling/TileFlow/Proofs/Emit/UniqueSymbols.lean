import TileFlow.Proofs.Core.Unified
import TileFlow.Proofs.Emit.ControlFlow
import TileFlow.Proofs.Stage.Values

/-!
# Symbols are introduced once

The backend text of a canonical program introduces a global for each buffer with a value and a
function for each core, besides what was at the top. Nothing looks at all of them together: two
cores on a tile, or two buffers of one name, end up with one symbol. When the symbols of a program
are apart to begin with, the lines of the text introduce every symbol once, and each buffer has a
global of its own. Symbols are taken over as they are, so that this is read off the text where no
name breaks a line.

## Main definitions

* `Program.SymbolsApart`: a program none of whose symbols clash.

## Main results

* `unified_introduces_once`: every symbol is introduced once.
* `unified_shares_symbols`: it is not, when cores or buffers have the same symbol.
-/

namespace TileFlow

open TileFlow.Action

variable {p q r : Program}

/-- The symbols of the globals and of the functions with a body that a program is lowered to. -/
def Program.lastingSymbols (p : Program) : List String :=
  p.bufferSymbols ++ p.symbols .global ++ (p.functionSymbols ++ p.symbols .definition)

/-- A program none of whose symbols clash: its buffers, its cores and what it defines at the top
have different symbols, no declaration and no intrinsic has one of these, and nothing calls a
global. -/
structure Program.SymbolsApart (p : Program) : Prop where
  nodup : p.lastingSymbols.Nodup
  declared : ∀ symbol ∈ p.symbols .declaration, symbol ∉ p.lastingSymbols
  intrinsics : ∀ device ∈ p.devices, (p.modelOf device).lockIntrinsics.1 ∉ p.lastingSymbols ∧
    (p.modelOf device).lockIntrinsics.2 ∉ p.lastingSymbols
  calls : p.CallsApart (· ∈ p.bufferSymbols ++ p.symbols .global)
    fun v => ∃ device ∈ p.devices, p.bufferSymbol? device v ≠ none

/-- Symbols do not clash in a program that neither declares nor calls anything if they do not clash
with each other and with the intrinsics. -/
theorem Program.symbolsApart_of_calls (hnodup : p.lastingSymbols.Nodup)
    (hdeclared : p.symbols .declaration = [])
    (hintrinsics : ∀ device ∈ p.devices, (p.modelOf device).lockIntrinsics.1 ∉ p.lastingSymbols ∧
      (p.modelOf device).lockIntrinsics.2 ∉ p.lastingSymbols)
    (hcalls : ∀ id ∈ p.walk, backendName? (p.op id).name ≠ some "llvm.call") : p.SymbolsApart where
  nodup := hnodup
  declared := by
    rw [hdeclared]
    exact fun _ h => absurd h List.not_mem_nil
  intrinsics := hintrinsics
  calls id hid := Operation.callsApart_of_name (hcalls id hid)

/-! ### Before the functions -/

section Annotated

variable (h : p.Annotated Prepared q)

include h

/-- Annotations keep the symbol of a unit. -/
theorem Program.Annotated.symbolAs? (id : OpId) (kind : UnitKind) :
    (q.op id).symbolAs? kind = (p.op id).symbolAs? kind := by
  obtain ⟨d, hd, -⟩ := h.op id
  rw [hd]
  rfl

/-- Annotations keep the symbols of one kind. -/
theorem Program.Annotated.symbols (kind : UnitKind) : q.symbols kind = p.symbols kind := by
  simp only [Program.symbols_eq, h.body, h.symbolAs?]

/-- Annotations keep the symbols of the units. -/
theorem Program.Annotated.unitSymbols (kind : UnitKind) :
    q.unitSymbols kind = p.unitSymbols kind := by
  cases kind with
  | global =>
      rw [Program.unitSymbols, Program.unitSymbols, Program.bufferSymbols, Program.bufferSymbols,
        Program.deviceBuffers, Program.deviceBuffers, h.devices]
      simp only [h.findIn]
      refine List.filterMap_congr fun b hb => ?_
      obtain ⟨device, -, hb⟩ := List.mem_flatMap.1 hb
      rw [Operation.bufferSymbol?, h.result, h.symbolName? (List.mem_filter.1 hb).2,
        Operation.bufferSymbol?]
  | definition =>
      simp only [Program.unitSymbols, Program.functionSymbols, Program.deviceCores, h.devices,
        h.findIn, h.owningTile?]
  | declaration => rfl

/-- Annotations keep calls apart. -/
theorem Program.Annotated.callsApart {symbols values : String → Prop}
    (hcalls : p.CallsApart symbols values) : q.CallsApart symbols values := by
  intro id hid
  rw [h.walk] at hid
  obtain ⟨d, hd, -⟩ := h.op id
  rw [hd]
  exact hcalls id hid

end Annotated

/-! ### The whole pipeline -/

/-- A symbol declared for the runtime is none of the lasting ones. -/
theorem Program.SymbolsApart.notMem {symbol : String} (h : p.SymbolsApart)
    (hsymbol : symbol ∈ p.symbols .declaration ∨ ∃ device ∈ p.devices,
      symbol = (p.modelOf device).lockIntrinsics.1 ∨ symbol = (p.modelOf device).lockIntrinsics.2) :
    symbol ∉ p.lastingSymbols := by
  rcases hsymbol with hsymbol | ⟨device, hdevice, rfl | rfl⟩
  · exact h.declared symbol hsymbol
  · exact (h.intrinsics device hdevice).1
  · exact (h.intrinsics device hdevice).2

/-- The symbols at the top of a lowered program whose symbols do not clash: those of its buffers and
cores and those at the top before. What is declared or called has none of them, apart from functions
that are called. -/
theorem unified_symbols (hp : p.WellFormed) (hlive : ∀ id ∈ p.walk, p.isLive id = true)
    (hvalues : p.definedValues.Nodup) (hapart : p.SymbolsApart)
    (h : Pipeline.unified.run p = (.ok (), q)) :
    (∀ kind, kind ≠ .declaration →
      (q.symbols kind).Perm (p.unitSymbols kind ++ p.symbols kind)) ∧
    (∀ symbol ∈ q.symbols .declaration, symbol ∉ p.lastingSymbols) ∧
    ∀ id ∈ q.walk, (q.op id).is "llvm.call" = true → ∀ symbol,
      (q.op id).operandSymbol? 0 = some symbol → symbol ∉ p.bufferSymbols ++ p.symbols .global := by
  rw [Pipeline.run, Pipeline.unified, Pipeline.runStages_cons_ok] at h
  obtain ⟨p₁, hlocks, h⟩ := h
  rw [Pipeline.runStages_cons_ok] at h
  obtain ⟨p₂, hspaces, h⟩ := h
  rw [Pipeline.runStages_cons_ok] at h
  obtain ⟨p₃, hcores, h⟩ := h
  obtain ⟨hprep, -⟩ := prepare_ok hp hlocks hspaces
  have hcalls : p₂.CallsApart (· ∈ p.bufferSymbols ++ p.symbols .global) fun v =>
      ∃ device ∈ p.devices, p.bufferSymbol? device v ≠ none := hprep.callsApart hapart.calls
  have hreplaced : p₂.Replaces p₂.devices p₃ ∧
      p₃.CallsApart (· ∈ p.bufferSymbols ++ p.symbols .global) fun v =>
        ∃ device ∈ p.devices, p.bufferSymbol? device v ≠ none := by
    refine lowerCores_replaces (hprep.wellFormed hp) ?_ (hprep.definedValues ▸ hvalues) ?_ ?_
      hcalls hcores
    · intro id hid
      rw [hprep.live, hlive id (hprep.walk ▸ hid)]
    · intro device hdevice v symbol hsymbol
      rw [hprep.bufferSymbol?] at hsymbol
      exact ⟨device, hprep.devices ▸ hdevice, by simp [hsymbol]⟩
    · intro device hdevice
      rw [hprep.modelOf]
      have hnot := hapart.intrinsics device (hprep.devices ▸ hdevice)
      exact ⟨fun hmem => hnot.1 (List.mem_append_left _ hmem),
        fun hmem => hnot.2 (List.mem_append_left _ hmem)⟩
  obtain ⟨hreplaces, hcalls⟩ := hreplaced
  obtain ⟨hlasting, hdeclared⟩ := hreplaces.symbols
  simp only [hprep.symbols, hprep.unitSymbols, hprep.devices, hprep.modelOf] at hlasting hdeclared
  have hglobals : (p₃.symbols .global).Nodup :=
    (hlasting .global (by decide)).nodup_iff.2 (List.nodup_append.1 hapart.nodup).1
  have hq := finish_keepsSymbols hreplaces.spares.wellFormed hreplaces.spares.live hglobals h
  refine ⟨fun kind hkind => ?_, fun symbol hsymbol => ?_, fun id hid hcall symbol hsymbol => ?_⟩
  · rw [hq.lasting kind hkind]
    exact hlasting kind hkind
  · exact hapart.notMem (hdeclared symbol (hq.declared symbol hsymbol))
  · refine (hq.calls _ _ hcalls id hid ?_).1 symbol hsymbol
    rw [show (q.op id).name = "llvm.call" from beq_iff_eq.1 hcall]
    decide +kernel

/-- A buffer with a value has a symbol. -/
theorem Operation.exists_bufferSymbol? (op : Operation) (h : op.result ≠ none) :
    ∃ symbol, op.bufferSymbol? = some symbol ∧ op.symbolName? = some symbol := by
  obtain ⟨value, hvalue⟩ := Option.ne_none_iff_exists'.1 h
  rw [bufferSymbol?, hvalue, Option.bind_some, symbolName?, hvalue]
  cases op.textAttr? "sym_name" <;> exact ⟨_, rfl, rfl⟩

/-! ### The text -/

/-- Operations of which the text shows what it introduces: no name breaks a line, and the symbols of
globals are one word each. -/
structure Backend.ArePlain (ops : Forest Operation) : Prop where
  unbroken : ∀ op ∈ ops.preorder, ∀ name ∈ namesOf op, Text.IsUnbroken name
  globals : ∀ symbol ∈ rootSymbols ops .global, ' ' ∉ symbol.toList

instance (ops : Forest Operation) : Decidable (Backend.ArePlain ops) :=
  decidable_of_iff (_ ∧ _) ⟨fun h => ⟨h.1, h.2⟩, fun h => ⟨h.1, h.2⟩⟩

/-- The sections of plain operations are plain. -/
theorem Backend.ArePlain.sections {ops : Forest Operation} {s : Sections} (h : ArePlain ops)
    (hdefined : List.Forall₂ (fun d f => f.IsOf d) (functionBodies ops) s.defined)
    (hglobal : s.globalSymbols = rootSymbols ops .global)
    (hdefinition : s.definedSymbols = rootSymbols ops .definition)
    (htyped : ∀ d ∈ s.declared, d.IsTyped)
    (hdeclared : ∀ symbol ∈ s.declaredSymbols, symbol ∈ rootSymbols ops .declaration ∨
      symbol ∉ s.definedSymbols ∧ ∃ op ∈ ops.preorder, op.is "llvm.call" = true ∧
        op.operandSymbol? 0 = some symbol) : s.IsPlain := by
  have hoperand : ∀ op ∈ ops.preorder, ∀ symbol, op.operandSymbol? 0 = some symbol →
      Text.IsUnbroken symbol := by
    intro op hop symbol hsymbol
    obtain ⟨a, ha, hname⟩ := Option.bind_eq_some_iff.1 hsymbol
    refine h.unbroken op hop symbol (List.mem_append_right _ (List.mem_filterMap.2
      ⟨a, List.mem_of_getElem? ha, ?_⟩))
    cases a <;> cases hname
    rfl
  have hroot : ∀ kind, ∀ symbol ∈ rootSymbols ops kind, Text.IsUnbroken symbol := by
    intro kind symbol hsymbol
    obtain ⟨op, hop, hkind⟩ := List.mem_filterMap.1 hsymbol
    rw [Operation.symbolAs?] at hkind
    split at hkind
    · exact hoperand op (Forest.mem_preorder_of_mem_roots hop) symbol hkind
    · cases hkind
  refine ⟨fun g hg => ?_, fun d hd => ⟨htyped d hd, ?_⟩, fun f hf => ?_⟩
  · have hmem : g.symbol ∈ rootSymbols ops .global := hglobal ▸ List.mem_map_of_mem hg
    exact ⟨hroot _ _ hmem, h.globals _ hmem⟩
  · rcases hdeclared d.symbol (List.mem_map_of_mem hd) with hmem | ⟨-, op, hop, -, hsymbol⟩
    · exact hroot _ _ hmem
    · exact hoperand op hop _ hsymbol
  · have hmem : f.symbol ∈ rootSymbols ops .definition := hdefinition ▸ List.mem_map_of_mem hf
    obtain ⟨i, hi, rfl⟩ := List.getElem_of_mem hf
    have hof := hdefined.get (hdefined.length_eq ▸ hi) hi
    have hd := List.get_mem (functionBodies ops) ⟨i, hdefined.length_eq ▸ hi⟩
    have hbody : AreUnbroken _ := fun op hop => h.unbroken op
      (((laidOut_sublist _).trans (preorder_sublist_of_functionBodies hd)).subset hop)
    exact ⟨hroot _ _ hmem, fun l hl => ⟨functionLines_isLinked hof.lines l hl,
      functionLines_isUnbroken hof.lines hbody l hl⟩⟩

/-- The text of plain sections introduces exactly their symbols, each as what it is. -/
theorem Backend.Sections.introducedAs_render {s : Sections} (h : s.IsPlain) :
    (introducedIn s.render).map (·.2) = s.symbols ∧
      introducedAs .global s.render = s.globalSymbols ∧
      introducedAs .definition s.render = s.definedSymbols := by
  simp only [introducedAs, s.introducedIn_render h, symbols, globalSymbols, declaredSymbols,
    definedSymbols, List.map_append, List.map_map, List.filterMap_append, List.filterMap_map]
  refine ⟨rfl, ?_, ?_⟩ <;> simp

/-- The sections of the text of a program: its globals and functions are introduced as often as they
stand at the top, and declared is, once, what has no body or is called and not defined. -/
theorem Program.backendText_sections {text : String} (h : p.backendText = .ok text) :
    ∃ s : Backend.Sections, text = s.render ∧ s.globalSymbols = p.symbols .global ∧
      s.definedSymbols = p.symbols .definition ∧ s.declaredSymbols.Nodup ∧
      (Backend.ArePlain p.contents → s.IsPlain) ∧
      ∀ symbol ∈ s.declaredSymbols, symbol ∈ p.symbols .declaration ∨
        symbol ∉ s.definedSymbols ∧ ∃ id ∈ p.walk, (p.op id).is "llvm.call" = true ∧
          (p.op id).operandSymbol? 0 = some symbol := by
  have hroots : ∀ kind, Backend.rootSymbols p.contents kind = p.symbols kind := fun kind => by
    rw [Backend.rootSymbols, Program.contents, Forest.roots_map, Program.symbols, Program.tops]
  obtain ⟨s, hs, hdefined, hglobal, hdefinition, hnodup, htyped, hdeclaration⟩ :=
    Backend.backendText_sections (Program.backendText_ok h)
  have hplain : Backend.ArePlain p.contents → s.IsPlain := fun hplain =>
    hplain.sections hdefined hglobal hdefinition htyped hdeclaration
  rw [hroots] at hglobal hdefinition
  refine ⟨s, hs, hglobal, hdefinition, hnodup, hplain, fun symbol hsymbol => ?_⟩
  rcases hdeclaration symbol hsymbol with hmem | ⟨hnot, op, hop, hcall⟩
  · exact .inl (hroots _ ▸ hmem)
  · rw [Program.contents, Forest.preorder_map] at hop
    obtain ⟨id, hid, rfl⟩ := List.mem_map.1 hop
    exact .inr ⟨hnot, id, hid, hcall⟩

/-- The sections of the backend text of a canonical program whose symbols do not clash: every symbol
is introduced once, as a global for a buffer with a value, as a function for a core, or as what it
is at the top, so that each of these buffers has a global of its own. -/
theorem unified_sections {source text : String} (h : canonicalizeSource source = .ok p)
    (hapart : p.SymbolsApart) (hrun : Pipeline.unified.run p = (.ok (), q))
    (htext : q.backendText = .ok text) :
    ∃ s : Backend.Sections, text = s.render ∧ (Backend.ArePlain q.contents → s.IsPlain) ∧
      s.symbols.Nodup ∧
      s.globalSymbols.Perm (p.bufferSymbols ++ p.symbols .global) ∧
      s.definedSymbols.Perm (p.functionSymbols ++ p.symbols .definition) ∧
      ∀ b ∈ p.deviceBuffers, (p.op b).result ≠ none →
        (∃ symbol ∈ s.globalSymbols, (p.op b).symbolName? = some symbol) ∧
        ∀ c ∈ p.deviceBuffers, (p.op c).result ≠ none →
          (p.op c).symbolName? = (p.op b).symbolName? → c = b := by
  obtain ⟨hsound, hvalues, hlive⟩ := canonicalizeSource_ready h
  obtain ⟨hlasting, hdeclared, hcalls⟩ := unified_symbols hsound.toWellFormed hlive
    hvalues hapart hrun
  obtain ⟨s, hs, hglobal, hdefinition, hnodup, hplain, hdeclaration⟩ :=
    Program.backendText_sections htext
  have hglobals : s.globalSymbols.Perm (p.bufferSymbols ++ p.symbols .global) := by
    rw [hglobal]
    exact hlasting .global (by decide)
  have hdefined : s.definedSymbols.Perm (p.functionSymbols ++ p.symbols .definition) := by
    rw [hdefinition]
    exact hlasting .definition (by decide)
  have hall : (s.globalSymbols ++ s.definedSymbols).Perm p.lastingSymbols :=
    hglobals.append hdefined
  have hapartall := hall.nodup_iff.2 hapart.nodup
  -- A declared symbol was declared before, or is called and not defined; a global is never called.
  have hfree : ∀ symbol ∈ s.declaredSymbols,
      symbol ∉ s.globalSymbols ∧ symbol ∉ s.definedSymbols := by
    intro symbol hsymbol
    rcases hdeclaration symbol hsymbol with hmem | ⟨hnot, id, hid, hcall, hcallee⟩
    · have hnot := hdeclared symbol hmem
      rw [← hall.mem_iff, List.mem_append, not_or] at hnot
      exact hnot
    · refine ⟨?_, hnot⟩
      rw [hglobals.mem_iff]
      exact hcalls id hid hcall symbol hcallee
  refine ⟨s, hs, hplain, ?_, hglobals, hdefined, fun b hb hresult => ⟨?_, fun c hc hc' hsame => ?_⟩⟩
  · rw [Backend.Sections.symbols, List.append_assoc]
    refine List.Nodup.perm ?_ (List.perm_append_comm_assoc s.declaredSymbols s.globalSymbols _)
    refine List.nodup_append.2 ⟨hnodup, hapartall, ?_⟩
    rintro symbol hsymbol _ hother rfl
    rcases List.mem_append.1 hother with hother | hother
    · exact (hfree symbol hsymbol).1 hother
    · exact (hfree symbol hsymbol).2 hother
  · obtain ⟨symbol, hsymbol⟩ := (p.op b).exists_bufferSymbol? hresult
    refine ⟨symbol, ?_, hsymbol.2⟩
    rw [hglobals.mem_iff]
    exact List.mem_append_left _ (List.mem_filterMap.2 ⟨b, hb, hsymbol.1⟩)
  · obtain ⟨symbol, hb₁, hb₂⟩ := (p.op b).exists_bufferSymbol? hresult
    obtain ⟨symbol', hc₁, hc₂⟩ := (p.op c).exists_bufferSymbol? hc'
    obtain rfl : symbol' = symbol := by
      rw [hb₂, hc₂] at hsame
      exact Option.some.inj hsame
    exact eq_of_nodup_filterMap (List.nodup_append.1 (List.nodup_append.1 hapart.nodup).1).1 hc hb
      hc₁ hb₁

/-- The backend text of a canonical program whose symbols do not clash introduces every symbol once:
globals for the buffers with a value and functions for the cores, besides what is at the top, so
that each of these buffers has a global of its own. This is read off the lines of the text, which
show it if no name in the lowered program breaks a line and the symbols of its globals are one word
each. -/
theorem unified_introduces_once {source text : String} (h : canonicalizeSource source = .ok p)
    (hapart : p.SymbolsApart) (hrun : Pipeline.unified.run p = (.ok (), q))
    (hplain : Backend.ArePlain q.contents) (htext : q.backendText = .ok text) :
    ((Backend.introducedIn text).map (·.2)).Nodup ∧
      (Backend.introducedAs .global text).Perm (p.bufferSymbols ++ p.symbols .global) ∧
      (Backend.introducedAs .definition text).Perm (p.functionSymbols ++ p.symbols .definition) ∧
      ∀ b ∈ p.deviceBuffers, (p.op b).result ≠ none →
        (∃ symbol ∈ Backend.introducedAs .global text, (p.op b).symbolName? = some symbol) ∧
        ∀ c ∈ p.deviceBuffers, (p.op c).result ≠ none →
          (p.op c).symbolName? = (p.op b).symbolName? → c = b := by
  obtain ⟨s, rfl, hsections, hnodup, hglobals, hdefined, hbuffers⟩ :=
    unified_sections h hapart hrun htext
  obtain ⟨hall, hglobal, hdefinition⟩ := Backend.Sections.introducedAs_render (hsections hplain)
  rw [hall, hglobal, hdefinition]
  exact ⟨hnodup, hglobals, hdefined, hbuffers⟩

/-- The text of a core that takes a lock and reads one of two buffers introduces two globals and a
function, besides the intrinsic. -/
theorem unified_introduces_once_reading : ∃ p q text,
    canonicalizeSource
    ("aie.device(ipu)\x7b%t=aie.tile(0,2)%l=aie.lock(%t)%a=aie.buffer(%t)\x7bsize=4\x7d" ++
      "%b=aie.buffer(%t)\x7bsize=4\x7daie.core(%t)\x7baie.use_lock(%l)%x=memref.load(%a)\x7d\x7d") =
    .ok p ∧
    p.SymbolsApart ∧ Pipeline.unified.run p = (.ok (), q) ∧ Backend.ArePlain q.contents ∧
    q.backendText = .ok text ∧ ((Backend.introducedIn text).map (·.2)).Nodup ∧
    (Backend.introducedAs .global text).Perm ["a", "b"] ∧
    (Backend.introducedAs .definition text).Perm ["core_0_2"] := by
  have hsource : ∃ p, canonicalizeSource
        ("aie.device(ipu)\x7b%t=aie.tile(0,2)%l=aie.lock(%t)%a=aie.buffer(%t)\x7bsize=4\x7d" ++
          "%b=aie.buffer(%t)\x7bsize=4\x7daie.core(%t)\x7baie.use_lock(%l)%x=memref.load(%a)\x7d\x7d") =
        .ok p ∧
      (p.bufferSymbols ++ p.symbols .global = ["a", "b"] ∧
        p.functionSymbols ++ p.symbols .definition = ["core_0_2"]) ∧
      (p.lastingSymbols.Nodup ∧ p.symbols .declaration = [] ∧
        (∀ device ∈ p.devices, (p.modelOf device).lockIntrinsics.1 ∉ p.lastingSymbols ∧
          (p.modelOf device).lockIntrinsics.2 ∉ p.lastingSymbols) ∧
        ∀ id ∈ p.walk, backendName? (p.op id).name ≠ some "llvm.call") ∧
      (Pipeline.unified.run p).1.toOption = some () ∧
      Backend.ArePlain (Pipeline.unified.run p).2.contents ∧
      (Pipeline.unified.run p).2.backendText.toOption.any (fun _ => decide True) = true :=
    exists_ok_of_any (by decide +kernel)
  obtain ⟨p, hp, ⟨hglobals, hdefined⟩, ⟨hnodup, hdeclared, hintrinsics, hcalls⟩, hok,
    hplain, htext⟩ :=
    hsource
  obtain ⟨text, htext, -⟩ := exists_ok_of_any htext
  have hapart := Program.symbolsApart_of_calls hnodup hdeclared hintrinsics hcalls
  have hrun := Pipeline.run_eq_ok hok
  obtain ⟨honce, hsglobals, hsdefined, -⟩ := unified_introduces_once hp hapart hrun hplain htext
  rw [hglobals] at hsglobals
  rw [hdefined] at hsdefined
  exact ⟨p, _, text, hp, hapart, hrun, hplain, htext, honce, hsglobals, hsdefined⟩

/-- What a text of lines introduces. -/
theorem Backend.introducedIn_joinWith {lines : List String} (hne : lines ≠ [])
    (h : ∀ line ∈ lines, Text.IsUnbroken line) :
    introducedIn (Text.joinWith '\n' lines) = lines.filterMap introducedIn? := by
  rw [introducedIn, Text.split_joinWith hne h]

/-- The text of a program whose symbols do not clash, given by its lines. -/
theorem exists_introducedIn (source : String) (lines : List String)
    (hsource : ∃ p, canonicalizeSource source = .ok p ∧
      (p.lastingSymbols.Nodup ∧ p.symbols .declaration = [] ∧
        (∀ device ∈ p.devices, (p.modelOf device).lockIntrinsics.1 ∉ p.lastingSymbols ∧
          (p.modelOf device).lockIntrinsics.2 ∉ p.lastingSymbols) ∧
        ∀ id ∈ p.walk, backendName? (p.op id).name ≠ some "llvm.call") ∧
      (Pipeline.unified.run p).1.toOption = some () ∧
      (Pipeline.unified.run p).2.backendText.toOption.any
        (fun text => decide (text = Text.joinWith '\n' lines)) = true)
    (hne : lines ≠ []) (hlines : ∀ line ∈ lines, Text.IsUnbroken line) :
    ∃ p q text, canonicalizeSource source = .ok p ∧ p.SymbolsApart ∧
      Pipeline.unified.run p = (.ok (), q) ∧ q.backendText = .ok text ∧
      Backend.introducedIn text = lines.filterMap Backend.introducedIn? := by
  obtain ⟨p, hp, ⟨hnodup, hdeclared, hintrinsics, hcalls⟩, hok, htext⟩ := hsource
  obtain ⟨text, htext, rfl⟩ := exists_ok_of_any htext
  exact ⟨p, _, _, hp, Program.symbolsApart_of_calls hnodup hdeclared hintrinsics hcalls,
    Pipeline.run_eq_ok hok, htext, Backend.introducedIn_joinWith hne hlines⟩

/-- Nothing looks for clashes. Two cores on one tile are defined with the same symbol, and two
buffers of the same name, size and place in the memory of their tiles have one global. Symbols are
written as they are, so that one that breaks a line, or one of more than one word, is read as
another one. -/
theorem unified_shares_symbols :
    (∃ p q text, canonicalizeSource
        "aie.device(ipu)\x7b%t=aie.tile(0,2)aie.core(%t)\x7b\x7daie.core(%t)\x7b\x7d\x7d" = .ok p ∧
      Pipeline.unified.run p = (.ok (), q) ∧ q.backendText = .ok text ∧
      Backend.introducedAs .definition text = ["core_0_2", "core_0_2"]) ∧
    (∃ p q text, canonicalizeSource
        ("aie.device(ipu)\x7b%t=aie.tile(0,2)%u=aie.tile(0,3)%a=aie.buffer(%t)\x7bsize=4,sym_name=d\x7d" ++
          "%b=aie.buffer(%u)\x7bsize=4,sym_name=d\x7d\x7d") = .ok p ∧
      Pipeline.unified.run p = (.ok (), q) ∧ q.backendText = .ok text ∧
      p.deviceBuffers.map (fun b => ((p.op b).result, (p.op b).symbolName?)) =
        [(some "a", some "d"), (some "b", some "d")] ∧
      Backend.introducedAs .global text = ["d"]) ∧
    (∃ p q text, canonicalizeSource
        ("aie.device(ipu)\x7b%t=aie.tile(0,2)%a=aie.buffer(%t)" ++
          "\x7bsize=4,sym_name=\"x = global\\n@x\"\x7d\x7d") = .ok p ∧
      p.SymbolsApart ∧ Pipeline.unified.run p = (.ok (), q) ∧ q.backendText = .ok text ∧
      Backend.introducedAs .global text = ["x", "x"]) ∧
    ∃ p q text, canonicalizeSource
        ("aie.device(ipu)\x7b%t=aie.tile(0,2)%a=aie.buffer(%t)\x7bsize=4,sym_name=\"x = global\"\x7d" ++
          "%x=aie.buffer(%t)\x7bsize=4\x7d\x7d") = .ok p ∧
      p.SymbolsApart ∧ Pipeline.unified.run p = (.ok (), q) ∧ q.backendText = .ok text ∧
      Backend.introducedAs .global text = ["x", "x"] := by
  refine ⟨?_, ?_, ?_, ?_⟩
  · have hsource : ∃ p, canonicalizeSource
          "aie.device(ipu)\x7b%t=aie.tile(0,2)aie.core(%t)\x7b\x7daie.core(%t)\x7b\x7d\x7d" =
            .ok p ∧
        (Pipeline.unified.run p).1.toOption = some () ∧
        (Pipeline.unified.run p).2.symbols .definition = ["core_0_2", "core_0_2"] ∧
        Backend.ArePlain (Pipeline.unified.run p).2.contents ∧
        (Pipeline.unified.run p).2.backendText.toOption.any (fun _ => decide True) = true :=
      exists_ok_of_any (by decide +kernel)
    obtain ⟨p, hp, hok, hsymbols, hplain, htext⟩ := hsource
    obtain ⟨text, htext, -⟩ := exists_ok_of_any htext
    obtain ⟨s, rfl, -, hdefined, -, hsections, -⟩ := Program.backendText_sections htext
    exact ⟨p, _, _, hp, Pipeline.run_eq_ok hok, htext,
      (Backend.Sections.introducedAs_render (hsections hplain)).2.2.trans (hdefined.trans hsymbols)⟩
  · have hsource : ∃ p, canonicalizeSource
          ("aie.device(ipu)\x7b%t=aie.tile(0,2)%u=aie.tile(0,3)%a=aie.buffer(%t)\x7bsize=4,sym_name=d\x7d" ++
            "%b=aie.buffer(%u)\x7bsize=4,sym_name=d\x7d\x7d") = .ok p ∧
        p.deviceBuffers.map (fun b => ((p.op b).result, (p.op b).symbolName?)) =
          [(some "a", some "d"), (some "b", some "d")] ∧
        (Pipeline.unified.run p).1.toOption = some () ∧
        (Pipeline.unified.run p).2.symbols .global = ["d"] ∧
        Backend.ArePlain (Pipeline.unified.run p).2.contents ∧
        (Pipeline.unified.run p).2.backendText.toOption.any (fun _ => decide True) = true :=
      exists_ok_of_any (by decide +kernel)
    obtain ⟨p, hp, hbuffers, hok, hsymbols, hplain, htext⟩ := hsource
    obtain ⟨text, htext, -⟩ := exists_ok_of_any htext
    obtain ⟨s, rfl, hglobals, -, -, hsections, -⟩ := Program.backendText_sections htext
    exact ⟨p, _, _, hp, Pipeline.run_eq_ok hok, htext, hbuffers,
      (Backend.Sections.introducedAs_render (hsections hplain)).2.1.trans (hglobals.trans hsymbols)⟩
  · obtain ⟨p, q, text, hp, hapart, hrun, htext, hread⟩ := exists_introducedIn
      ("aie.device(ipu)\x7b%t=aie.tile(0,2)%a=aie.buffer(%t)" ++
        "\x7bsize=4,sym_name=\"x = global\\n@x\"\x7d\x7d")
      ["; ModuleID = 'aie'", "source_filename = \"aie\"", "", "; @x = global", "@x placed at 0x0",
        "@x = global", "@x = global [4 x i8] zeroinitializer, align 16", "", ""]
      (exists_ok_of_any (by decide +kernel)) (by decide) (by decide)
    exact ⟨p, q, text, hp, hapart, hrun, htext, by rw [Backend.introducedAs, hread]; decide +kernel⟩
  · obtain ⟨p, q, text, hp, hapart, hrun, htext, hread⟩ := exists_introducedIn
      ("aie.device(ipu)\x7b%t=aie.tile(0,2)%a=aie.buffer(%t)\x7bsize=4,sym_name=\"x = global\"\x7d"
        ++
        "%x=aie.buffer(%t)\x7bsize=4\x7d\x7d")
      ["; ModuleID = 'aie'", "source_filename = \"aie\"", "", "; @x = global placed at 0x0",
        "@x = global = global [4 x i8] zeroinitializer, align 16", "; @x placed at 0x10",
        "@x = global [4 x i8] zeroinitializer, align 16", "", ""]
      (exists_ok_of_any (by decide +kernel)) (by decide) (by decide)
    exact ⟨p, q, text, hp, hapart, hrun, htext, by rw [Backend.introducedAs, hread]; decide +kernel⟩

end TileFlow
