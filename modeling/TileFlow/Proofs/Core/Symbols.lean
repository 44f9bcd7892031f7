import TileFlow.Proofs.Core.Unified
import TileFlow.Proofs.Core.Units
import TileFlow.Proofs.Stage.Pipeline

/-!
# Symbols at the top

An operation at the top that the backend knows as a global or as a function has a symbol. The
lowering of the cores adds the symbols of the buffers and of the cores. The stages after it keep the
symbols of globals and of functions with a body, as long as no two globals share one, and add none
to those that are declared.

## Main definitions

* `Operation.unitKind?`: whether an operation is a global, a function, or a declaration of one.
* `Program.symbols`: the symbols at the top of one kind.
* `Program.bufferSymbols`, `Program.functionSymbols`: the symbols that the devices stand for.
* `Program.KeepsSymbols`: a program with the symbols of another one.

## Main results

* `Program.Replaces.symbols`: the symbols at the top after the lowering of the cores.
* `finish_keepsSymbols`: the stages after it keep the symbols.
-/

namespace TileFlow

open TileFlow.Action

variable {p q r s : Program}

/-- What the backend makes of an operation at the top. -/
inductive UnitKind where
  | global
  | definition
  | declaration
  deriving DecidableEq, Repr

/-- What the backend makes of an operation at the top, if anything. -/
def Operation.unitKind? (op : Operation) : Option UnitKind :=
  if backendName? op.name = some "llvm.global" then some .global
  else if backendName? op.name = some "llvm.func" then
    some (if op.hasRegion then .definition else .declaration)
  else none

/-- The symbol of an operation that the backend makes something of a kind of. -/
def Operation.symbolAs? (kind : UnitKind) (op : Operation) : Option String :=
  if op.unitKind? = some kind then op.operandSymbol? 0 else none

/-- The symbols at the top of a kind. -/
def Program.symbols (p : Program) (kind : UnitKind) : List String :=
  p.tops.filterMap (Operation.symbolAs? kind)

/-- The symbol that a buffer with a value has. -/
def Operation.bufferSymbol? (op : Operation) : Option String :=
  op.result.bind fun _ => op.symbolName?

/-- The buffers of the devices at the top. -/
def Program.deviceBuffers (p : Program) : List OpId :=
  p.devices.flatMap fun device => p.findIn device "aie.buffer"

/-- The cores of the devices at the top. -/
def Program.deviceCores (p : Program) : List OpId :=
  p.devices.flatMap fun device => p.findIn device "aie.core"

/-- The symbols of the buffers of the devices at the top, of those with a value. -/
def Program.bufferSymbols (p : Program) : List String :=
  p.deviceBuffers.filterMap fun b => (p.op b).bufferSymbol?

/-- The symbols of the functions for the cores of the devices at the top. -/
def Program.functionSymbols (p : Program) : List String :=
  p.deviceCores.filterMap fun core => (p.owningTile? core).map Tile.coreSymbol

/-- What becomes a global is one. -/
theorem Operation.unitKind?_of_global {op : Operation}
    (h : backendName? op.name = some "llvm.global") : op.unitKind? = some .global :=
  if_pos h

/-- What becomes a function is a definition if it has a region and a declaration if not. -/
theorem Operation.unitKind?_of_function {op : Operation}
    (h : backendName? op.name = some "llvm.func") :
    op.unitKind? = some (if op.hasRegion then .definition else .declaration) := by
  rw [unitKind?, h, if_neg (by decide), if_pos rfl]

/-- What has no name for the back end is no unit. -/
theorem Operation.unitKind?_of_none {op : Operation} (h : backendName? op.name = none) :
    op.unitKind? = none := by
  rw [unitKind?, h, if_neg (by simp), if_neg (by simp)]

/-- An operation of a kind has its symbol as that kind, and none as another one. -/
theorem Operation.symbolAs?_of_unitKind? {op : Operation} {kind : UnitKind}
    (h : op.unitKind? = some kind) (other : UnitKind) :
    op.symbolAs? other = if other = kind then op.operandSymbol? 0 else none := by
  rw [symbolAs?, h]
  by_cases hother : other = kind
  · rw [hother, if_pos rfl, if_pos rfl]
  · rw [if_neg hother, if_neg (by rw [Option.some.injEq]; exact Ne.symm hother)]

/-- What is no unit has no symbol of any kind. -/
theorem Operation.symbolAs?_of_none {op : Operation} (h : op.unitKind? = none) (kind : UnitKind) :
    op.symbolAs? kind = none := by
  rw [symbolAs?, h, if_neg (by simp)]

/-! ### The lowering of the cores -/

/-- The global of a buffer has its symbol. -/
theorem Operation.global?_symbolAs? (buffer : Operation) (kind : UnitKind) :
    buffer.global?.bind (symbolAs? kind) =
      if kind = .global then buffer.bufferSymbol? else none := by
  rw [global?, bufferSymbol?]
  cases buffer.result with
  | none => cases kind <;> rfl
  | some value =>
      cases buffer.symbolName? with
      | none => cases kind <;> rfl
      | some symbol =>
          dsimp only
          rw [Option.bind_some, symbolAs?_of_unitKind? (unitKind?_of_global backendName?_global)]
          rfl

/-- The function of a core has the symbol of its tile. -/
theorem Program.function?_symbolAs? (p : Program) (core : OpId) (kind : UnitKind) :
    (p.function? core).bind (Operation.symbolAs? kind) =
      if kind = .definition then (p.owningTile? core).map Tile.coreSymbol else none := by
  rw [function?]
  cases p.owningTile? core with
  | none => cases kind <;> rfl
  | some tile =>
      rw [Option.map_some, Option.bind_some, Option.map_some,
        Operation.symbolAs?_of_unitKind?
          (Operation.unitKind?_of_function backendName?_function)]
      rfl

/-- The declaration of an intrinsic has the symbol of the intrinsic. -/
theorem symbolAs?_intrinsicDeclaration (intrinsic : String) (kind : UnitKind) :
    (intrinsicDeclaration intrinsic).symbolAs? kind =
      if kind = .declaration then some intrinsic else none := by
  rw [Operation.symbolAs?_of_unitKind? (Operation.unitKind?_of_function backendName?_function)]
  rfl

/-- The symbols that come to the top for the devices of a program. -/
def Program.unitSymbols (p : Program) : UnitKind → List String
  | .global => p.bufferSymbols
  | .definition => p.functionSymbols
  | .declaration => []

/-- What replaces the devices has the symbols of their buffers and cores. -/
theorem Program.filterMap_units (p : Program) (kind : UnitKind) :
    (p.devices.flatMap fun device => p.functionsOf device ++ p.globalsOf device).filterMap
      (Operation.symbolAs? kind) = p.unitSymbols kind := by
  have hfunctions : ∀ device, (p.functionsOf device).filterMap (Operation.symbolAs? kind) =
      (p.findIn device "aie.core").filterMap fun core =>
        if kind = .definition then (p.owningTile? core).map Tile.coreSymbol else none :=
    fun device => by
      rw [Program.functionsOf, List.filterMap_filterMap]
      exact List.filterMap_congr fun core _ => p.function?_symbolAs? core kind
  have hglobals : ∀ device, (p.globalsOf device).filterMap (Operation.symbolAs? kind) =
      (p.findIn device "aie.buffer").filterMap fun b =>
        if kind = .global then (p.op b).bufferSymbol? else none :=
    fun device => by
      rw [Program.globalsOf, List.filterMap_filterMap]
      exact List.filterMap_congr fun b _ => (p.op b).global?_symbolAs? kind
  rw [List.filterMap_flatMap]
  simp only [List.filterMap_append, hfunctions, hglobals]
  cases kind <;> simp [unitSymbols, bufferSymbols, functionSymbols, deviceBuffers, deviceCores,
    List.filterMap_flatMap]

/-- The symbols at the top after the lowering of the cores: those of the buffers and of the cores
besides those before. Of declarations, only those of the intrinsics of the devices are new. -/
theorem Program.Replaces.symbols (h : p.Replaces p.devices q) :
    (∀ kind, kind ≠ .declaration →
      (q.symbols kind).Perm (p.unitSymbols kind ++ p.symbols kind)) ∧
    ∀ symbol ∈ q.symbols .declaration, symbol ∈ p.symbols .declaration ∨
      ∃ device ∈ p.devices, symbol = (p.modelOf device).lockIntrinsics.1 ∨
        symbol = (p.modelOf device).lockIntrinsics.2 := by
  obtain ⟨new, hnew, htops⟩ := h.tops
  have hdevices : ∀ kind, (p.devices.map p.op).filterMap (Operation.symbolAs? kind) = [] := by
    intro kind
    rw [List.filterMap_eq_nil_iff]
    intro op hop
    obtain ⟨device, hdevice, rfl⟩ := List.mem_map.1 hop
    have hname : (p.op device).name = "aie.device" := by
      simpa [Operation.is] using (List.mem_filter.1 hdevice).2
    have hnone : backendName? (p.op device).name = none := by
      rw [hname]
      exact backendName?_eq_none _ (by simp)
    exact Operation.symbolAs?_of_none (Operation.unitKind?_of_none hnone) kind
  have hperm : ∀ kind, (q.symbols kind).Perm
      (new.filterMap (Operation.symbolAs? kind) ++ p.unitSymbols kind ++ p.symbols kind) := by
    intro kind
    have := htops.filterMap (Operation.symbolAs? kind)
    rw [List.filterMap_append, hdevices, List.nil_append, List.filterMap_append,
      List.filterMap_append, p.filterMap_units] at this
    exact this
  have hnewkind : ∀ kind, ∀ d ∈ new, ∃ device ∈ p.devices, ∃ intrinsic,
      (intrinsic = (p.modelOf device).lockIntrinsics.1 ∨
        intrinsic = (p.modelOf device).lockIntrinsics.2) ∧
      d.symbolAs? kind = if kind = .declaration then some intrinsic else none := by
    intro kind d hd
    obtain ⟨device, hdevice, rfl | rfl⟩ := hnew d hd
    · exact ⟨device, hdevice, _, .inl rfl, symbolAs?_intrinsicDeclaration _ kind⟩
    · exact ⟨device, hdevice, _, .inr rfl, symbolAs?_intrinsicDeclaration _ kind⟩
  constructor
  · intro kind hkind
    have hnone : new.filterMap (Operation.symbolAs? kind) = [] := by
      rw [List.filterMap_eq_nil_iff]
      intro d hd
      obtain ⟨_, _, _, _, hsymbol⟩ := hnewkind kind d hd
      rw [hsymbol, if_neg hkind]
    have := hperm kind
    rwa [hnone, List.nil_append] at this
  · intro symbol hsymbol
    have hmem := (hperm .declaration).mem_iff.1 hsymbol
    rw [Program.unitSymbols, List.append_nil, List.mem_append] at hmem
    refine hmem.symm.imp id fun hmem => ?_
    obtain ⟨d, hd, hdsymbol⟩ := List.mem_filterMap.1 hmem
    obtain ⟨device, hdevice, intrinsic, hintrinsic, hsame⟩ := hnewkind .declaration d hd
    rw [hsame, if_pos rfl, Option.some.injEq] at hdsymbol
    exact ⟨device, hdevice, hdsymbol ▸ hintrinsic⟩

/-! ### The stages after it -/

/-- A program that has the globals and the functions of another one, and whose declarations and
calls are among those of it. -/
structure Program.KeepsSymbols (p q : Program) : Prop where
  wellFormed : q.WellFormed
  lasting : ∀ kind, kind ≠ .declaration → q.symbols kind = p.symbols kind
  declared : ∀ symbol ∈ q.symbols .declaration, symbol ∈ p.symbols .declaration
  calls : ∀ symbols values, p.CallsApart symbols values → q.CallsApart symbols values

/-- Keeping the symbols is transitive. -/
theorem Program.KeepsSymbols.trans (h : p.KeepsSymbols q) (h' : q.KeepsSymbols r) :
    p.KeepsSymbols r where
  wellFormed := h'.wellFormed
  lasting kind hkind := (h'.lasting kind hkind).trans (h.lasting kind hkind)
  declared symbol hsymbol := h.declared symbol (h'.declared symbol hsymbol)
  calls symbols values hcalls := h'.calls symbols values (h.calls symbols values hcalls)

/-- The symbols of one kind are read off the operations at the top. -/
theorem Program.symbols_eq (p : Program) (kind : UnitKind) :
    p.symbols kind = p.body.roots.filterMap fun id => (p.op id).symbolAs? kind := by
  rw [symbols, tops, List.filterMap_map]
  rfl

/-- Leaving out what is no symbol of a kind keeps the symbols of the kind. -/
theorem filterMap_filter_of_none {α β : Type} {f : α → Option β} {P : α → Bool} {l : List α}
    (h : ∀ a ∈ l, P a = false → f a = none) : (l.filter P).filterMap f = l.filterMap f := by
  rw [List.filterMap_filter]
  refine List.filterMap_congr fun a ha => ?_
  split
  · rfl
  · rename_i hP
    rw [h a ha (by simpa using hP)]

/-- A program that has lost some operations, none of which was a global or a function at the top. -/
theorem Program.keepsSymbols_of_filter (hq : q.WellFormed) (hop : ∀ id, q.op id = p.op id)
    (hwalk : ∀ id ∈ q.walk, id ∈ p.walk) {P : OpId → Bool}
    (hroots : q.body.roots = p.body.roots.filter P)
    (hlost : ∀ id ∈ p.body.roots, P id = false → ∀ kind, kind ≠ .declaration →
      (p.op id).symbolAs? kind = none) : p.KeepsSymbols q := by
  refine ⟨hq, fun kind hkind => ?_, fun symbol hsymbol => ?_,
    fun symbols values hcalls id hid => ?_⟩
  · rw [Program.symbols_eq, hroots, Program.symbols_eq]
    simp only [hop]
    exact filterMap_filter_of_none fun id hid hP => hlost id hid hP kind hkind
  · rw [Program.symbols_eq, hroots] at hsymbol
    rw [Program.symbols_eq]
    simp only [hop] at hsymbol
    obtain ⟨id, hid, hsymbol⟩ := List.mem_filterMap.1 hsymbol
    exact List.mem_filterMap.2 ⟨id, (List.mem_filter.1 hid).1, hsymbol⟩
  · rw [hop]
    exact hcalls id (hwalk id hid)

/-- Pruning operations that the backend makes nothing of. -/
theorem Program.Pruned.keepsSymbols {P : OpId → Bool} (h : p.Pruned P q) (hp : p.WellFormed)
    (hP : ∀ id, P id = true → (p.op id).unitKind? = none) : p.KeepsSymbols q := by
  refine keepsSymbols_of_filter (P := fun id => !P id) (h.wellFormed hp) h.op
    (fun id hid => ?_) ?_ ?_
  · rw [walk, h.body] at hid
    exact (Forest.mem_preorder_of_prune hid).1
  · rw [h.body, Forest.roots_eq, Forest.trees_prune, Forest.roots_eq, List.filter_map, List.map_map]
    rfl
  · intro id _ hlost kind _
    exact Operation.symbolAs?_of_none (hP id (by simpa using hlost)) kind

/-- Pruning at the top what is no global and no function with a body. -/
theorem Program.PrunedTop.keepsSymbols {P : OpId → Bool} (h : p.PrunedTop P q) (hp : p.WellFormed)
    (hP : ∀ id ∈ p.body.roots, P id = true → ∀ kind, kind ≠ .declaration →
      (p.op id).symbolAs? kind = none) : p.KeepsSymbols q :=
  keepsSymbols_of_filter (h.wellFormed hp) h.op (fun _ hid => h.walk_sublist.subset hid) h.roots
    fun id hid hlost => hP id hid (by simpa using hlost)

/-- An operation that the backend knows is of one of five dialects. -/
theorem Operation.dialect_of_backendName? {op : Operation} {lowered : String}
    (h : backendName? op.name = some lowered) :
    op.dialect ∈ ["func", "memref", "cf", "arith", "llvm"] := by
  have hprefix : ∀ start : String, op.name.startsWith start = true →
      ∃ rest, op.name.toList = start.toList ++ rest := fun start hstart => by
    obtain ⟨rest, hrest⟩ := String.startsWith_string_iff.1 hstart
    exact ⟨rest, hrest.symm⟩
  rw [backendName?] at h
  rw [dialect]
  split at h
  · rename_i source listed hfind
    have hname := List.find?_some hfind
    have hlisted := List.mem_of_find?_eq_some hfind
    rw [beq_iff_eq] at hname
    dsimp only at hname
    rw [← hname]
    have hall : ∀ e ∈ backendNames, String.ofList (e.1.toList.takeWhile (· != '.')) ∈
        ["func", "memref", "cf", "arith", "llvm"] := by decide +kernel
    exact hall _ hlisted
  · split at h
    · rename_i harith
      obtain ⟨rest, hrest⟩ := hprefix "arith." harith
      rw [hrest, show "arith.".toList = ['a', 'r', 'i', 't', 'h', '.'] by decide]
      exact List.mem_of_getElem? (i := 3) rfl
    · split at h
      · rename_i hllvm
        obtain ⟨rest, hrest⟩ := hprefix "llvm." hllvm
        rw [hrest, show "llvm.".toList = ['l', 'l', 'v', 'm', '.'] by decide]
        exact List.mem_of_getElem? (i := 4) rfl
      · cases h

/-- An operation that the backend does not know is no global and no function. -/
theorem Operation.unitKind?_of_dialect {op : Operation}
    (h : op.dialect ∉ ["func", "memref", "cf", "arith", "llvm"]) : op.unitKind? = none := by
  refine unitKind?_of_none ?_
  cases hname : backendName? op.name with
  | none => rfl
  | some lowered => exact absurd (dialect_of_backendName? hname) h

/-- Dropping the runtime sequence keeps the symbols and leaves nothing dangling. -/
theorem dropRuntime_keepsSymbols (hp : p.WellFormed) (hlive : ∀ id ∈ p.walk, p.isLive id = true)
    (h : runOn dropRuntime p = (.ok (), q)) :
    p.KeepsSymbols q ∧ ∀ id ∈ q.walk, q.isLive id = true := by
  have hq := dropRuntime_pruned hp hlive h
  refine ⟨hq.keepsSymbols hp fun id hid => Operation.unitKind?_of_dialect ?_, hq.allLive⟩
  rw [beq_iff_eq.1 hid]
  decide

/-- A terminator is no unit. -/
theorem Operation.unitKind?_of_isTerminator {op : Operation} (h : op.isTerminator = true) :
    op.unitKind? = none := by
  rw [isTerminator, Bool.or_eq_true] at h
  refine unitKind?_of_none ?_
  rcases h with h | h <;> rw [show op.name = _ from beq_iff_eq.1 h] <;>
    exact backendName?_eq_none _ (by simp)

/-- A declaration is declared, and nothing else. -/
theorem Operation.unitKind?_of_isDeclaration {op : Operation} (h : op.isDeclaration = true) :
    op.unitKind? = some .declaration := by
  rw [isDeclaration, Bool.and_eq_true, Bool.or_eq_true, Bool.not_eq_true'] at h
  obtain ⟨hname, hregion⟩ := h
  have hlowered : backendName? op.name = some "llvm.func" := by
    rcases hname with hname | hname <;> rw [show op.name = _ from beq_iff_eq.1 hname]
    · exact backendName?_function
    · exact backendName?_of_mem ("llvm.func", "llvm.func") (by simp)
  rw [unitKind?_of_function hlowered, hregion, if_neg Bool.false_ne_true]

/-- A declaration has a symbol as a declaration only. -/
theorem Operation.symbolAs?_of_isDeclaration {op : Operation} (h : op.isDeclaration = true)
    {kind : UnitKind} (hkind : kind ≠ .declaration) : op.symbolAs? kind = none := by
  rw [symbolAs?_of_unitKind? (unitKind?_of_isDeclaration h), if_neg hkind]

/-- Dropping declarations that no call names. -/
theorem Program.PrunedTop.keepsSymbols_of_isUnused {called : List String}
    (h : p.PrunedTop (fun id => (p.op id).isUnused called) q) (hp : p.WellFormed) :
    p.KeepsSymbols q :=
  h.keepsSymbols hp fun id _ hunused kind hkind => by
    rw [Operation.isUnused, Bool.and_eq_true, Bool.and_eq_true] at hunused
    exact Operation.symbolAs?_of_isDeclaration hunused.1.1 hkind

/-- Dropping terminators and declarations, when all operations are live. -/
theorem dropUnused_keepsSymbols (hp : p.WellFormed) (hlive : ∀ id ∈ p.walk, p.isLive id = true)
    (h : runOn dropUnused p = (.ok (), q)) : p.KeepsSymbols q := by
  obtain ⟨r, hloop, hq⟩ := dropUnused_ok h
  have hr := forM_pruned (P := Operation.isTerminator) hp hlive
    (fun id r s hstep => dropTerminator_ok hstep) hloop
  have hwf := hr.wellFormed hp
  exact (hr.keepsSymbols hp fun id hid => Operation.unitKind?_of_isTerminator hid).trans
    ((hq hwf).keepsSymbols_of_isUnused hwf)

/-- Dropping declarations, when there are no terminators. -/
theorem dropUnused_keepsSymbols_of_none (hp : p.WellFormed)
    (hnone : ∀ id ∈ p.walk, (p.op id).isTerminator = false)
    (h : runOn dropUnused p = (.ok (), q)) : p.KeepsSymbols q :=
  (dropUnused_ok_of_none hp hnone h).keepsSymbols_of_isUnused hp

/-- An operation that may be merged is no function with a body. -/
theorem Operation.unitKind?_of_isMergeable {op : Operation} (h : op.isMergeable = true) :
    op.unitKind? ≠ some .definition := by
  rw [isMergeable, Bool.or_eq_true, Bool.or_eq_true, or_assoc] at h
  rcases h with h | h
  · rw [unitKind?_of_isDeclaration h]
    decide
  · have hlowered : backendName? op.name = some "llvm.global" := by
      rcases h with h | h <;> rw [show op.name = _ from beq_iff_eq.1 h]
      · exact backendName?_global
      · exact backendName?_of_mem ("llvm.global", "llvm.global") (by simp)
    rw [unitKind?_of_global hlowered]
    decide

/-- What can be merged defines no function. -/
theorem Operation.symbolAs?_of_isMergeable {op : Operation} (h : op.isMergeable = true) :
    op.symbolAs? .definition = none :=
  if_neg (unitKind?_of_isMergeable h)

/-- Operations with the same name and operands that may be merged have the same symbols. -/
theorem Operation.symbolAs?_global_congr {a b : Operation} (hname : a.name = b.name)
    (hoperands : a.operands = b.operands) : a.symbolAs? .global = b.symbolAs? .global := by
  have hkind : ∀ op : Operation, op.unitKind? = some .global ↔
      backendName? op.name = some "llvm.global" := fun op => by
    rw [unitKind?]
    split
    · simp [*]
    · split
      · simp [*]
        split <;> simp
      · simp [*]
  simp only [symbolAs?, hkind, hname, operandSymbol?, hoperands]

/-- Merging keeps the globals, if no two of them have the same symbol. -/
theorem mergeEqual_keepsSymbols (hp : p.WellFormed) (hglobals : (p.symbols .global).Nodup)
    (h : runOn mergeEqual p = (.ok (), q)) : p.KeepsSymbols q := by
  rw [Program.symbols_eq] at hglobals
  refine (mergeEqual_ok hp h).keepsSymbols hp fun id hid hcopy kind hkind => ?_
  obtain ⟨hmergeable, other, hother, -, hcontent⟩ := Program.isCopy_iff.1 hcopy
  obtain ⟨hname, hoperands⟩ := Operation.content_eq.1 hcontent
  cases kind with
  | declaration => exact absurd rfl hkind
  | definition => exact Operation.symbolAs?_of_isMergeable hmergeable
  | global =>
      cases hsymbol : (p.op id).symbolAs? .global with
      | none => rfl
      | some symbol =>
          -- The earlier operation is a global with the same symbol, and there is only one.
          have hsymbol' := hsymbol
          rw [← Operation.symbolAs?_global_congr hname hoperands.1] at hsymbol'
          have hroot := (List.takeWhile_sublist _).subset hother
          obtain rfl := eq_of_nodup_filterMap hglobals hid hroot hsymbol hsymbol'
          simpa using List.mem_takeWhile_imp hother

/-- A name of the backend is its own name for the backend. -/
theorem backendName?_idem {name lowered : String} (h : backendName? name = some lowered) :
    backendName? lowered = some lowered := by
  have hprefix := prefix_of_backendName? h
  have hlisted : ∀ e ∈ backendNames, ¬ ['l', 'l', 'v', 'm', '.'] <+: e.1.toList := by decide +kernel
  have hnone : backendNames.find? (·.1 == lowered) = none := by
    rw [List.find?_eq_none]
    intro e he hname
    exact hlisted e he (by rwa [beq_iff_eq.1 hname])
  have harith : lowered.startsWith "arith." = false := by
    rw [Bool.eq_false_iff]
    intro hstart
    obtain ⟨rest, hrest⟩ := String.startsWith_string_iff.1 hstart
    obtain ⟨rest', hrest'⟩ := hprefix
    rw [← hrest, show "arith.".toList = ['a', 'r', 'i', 't', 'h', '.'] by decide] at hrest'
    cases hrest'
  have hllvm : lowered.startsWith "llvm." = true := by
    rw [String.startsWith_string_iff, show "llvm.".toList = ['l', 'l', 'v', 'm', '.'] by decide]
    exact hprefix
  rw [backendName?, hnone]
  dsimp only
  rw [harith, hllvm, if_neg Bool.false_ne_true, if_pos rfl]

/-- Names for the backend keep what the backend makes of an operation. -/
theorem Operation.unitKind?_rename {op : Operation} {name : String}
    (h : backendName? op.name = some name) : ({ op with name } : Operation).unitKind? =
    op.unitKind? := by
  rw [unitKind?, unitKind?, h]
  dsimp only
  rw [backendName?_idem h]

/-- The name for the back end leaves the kind and the symbol of a unit. -/
theorem Operation.symbolAs?_rename {op : Operation} {name : String}
    (h : backendName? op.name = some name) (kind : UnitKind) :
    ({ op with name } : Operation).symbolAs? kind = op.symbolAs? kind := by
  rw [symbolAs?, unitKind?_rename h, symbolAs?]
  rfl

/-- Calls that stay apart do so under the name for the back end. -/
theorem Operation.CallsApart.rename {symbols values : String → Prop} {op : Operation}
    {name : String}
    (h : op.CallsApart symbols values) (hname : backendName? op.name = some name) :
    ({ op with name } : Operation).CallsApart symbols values := by
  intro hcall
  dsimp only at hcall
  rw [backendName?_idem hname, ← hname] at hcall
  exact h hcall

/-- A return goes into a function, and not to the top. -/
theorem terminate_roots {l : List OpId} (h : runOn (l.forM terminate) p = (.ok (), q)) :
    q.body.roots = p.body.roots := by
  refine forM_induction (I := fun r => r.body.roots = p.body.roots) h rfl fun id _ r s
    hr hstep => ?_
  rw [terminate_ok hstep]
  split
  · rw [Program.append, Program.body_insertAt_some, Forest.roots_update, hr]
  · exact hr

/-- What is at the top stays there, under its name for the backend. -/
theorem lowerNames_top (hp : p.WellFormed) (h : runOn lowerNames p = (.ok (), q)) :
    q.body.roots = p.body.roots ∧ ∀ id ∈ p.body.roots, ∃ name,
      backendName? (p.op id).name = some name ∧ q.op id = { p.op id with name } := by
  rw [lowerNames, get_bind_ok, bind_ok] at h
  obtain ⟨_, r, hnames, h⟩ := h
  rw [get_bind_ok] at h
  obtain ⟨hedited, hnamed⟩ := lowerName_edited hp hnames
  have hreturn := terminate_returning (hedited.wellFormed hp) h
  refine ⟨by rw [terminate_roots h, hedited.body], fun id hid => ?_⟩
  have hidp := Program.mem_walk_of_mem_roots hid
  obtain ⟨name, hname, hop⟩ := hnamed id hidp
  refine ⟨name, hname, ?_⟩
  rw [hreturn.op id (by rwa [Program.walk, hedited.body]), hop]

/-- Names for the backend, and returns. -/
theorem lowerNames_keepsSymbols (hp : p.WellFormed) (h : runOn lowerNames p = (.ok (), q)) :
    p.KeepsSymbols q ∧ ∀ id ∈ q.walk, (q.op id).isTerminator = false := by
  obtain ⟨-, -, hq, hnone, -⟩ := lowerNames_keeps hp h
  obtain ⟨hroots, htop⟩ := lowerNames_top hp h
  rw [lowerNames, get_bind_ok, bind_ok] at h
  obtain ⟨_, r, hnames, h⟩ := h
  rw [get_bind_ok] at h
  obtain ⟨hedited, hnamed⟩ := lowerName_edited hp hnames
  have hreturn := terminate_returning (hedited.wellFormed hp) h
  have hwalk : r.walk = p.walk := by rw [Program.walk, hedited.body, Program.walk]
  have hsymbols : ∀ kind, q.symbols kind = p.symbols kind := fun kind => by
    rw [Program.symbols_eq, hroots, Program.symbols_eq]
    refine List.filterMap_congr fun id hid => ?_
    obtain ⟨name, hname, hop⟩ := htop id hid
    rw [hop, Operation.symbolAs?_rename hname]
  refine ⟨⟨hq, fun kind _ => hsymbols kind, fun symbol => ?_,
    fun symbols values hcalls id hid => ?_⟩,
    hnone⟩
  · rw [hsymbols]
    exact id
  · rcases hreturn.walk id hid with hidr | hnew
    · obtain ⟨name, hname, hop⟩ := hnamed id (hwalk ▸ hidr)
      rw [hreturn.op id hidr, hop]
      exact (hcalls id (hwalk ▸ hidr)).rename hname
    · rw [hnew]
      exact Operation.callsApart_of_name
        ((backendName?_of_mem ("llvm.return", "llvm.return") (by simp)).trans_ne (by decide))

/-- The stages after the lowering of the cores keep the symbols, if no two globals share one. -/
theorem finish_keepsSymbols (hp : p.WellFormed) (hlive : ∀ id ∈ p.walk, p.isLive id = true)
    (hglobals : (p.symbols .global).Nodup)
    (h : Pipeline.runStages [.dropRuntime, .dropUnused, .mergeEqual, .lowerNames, .dropUnused,
      .mergeEqual] p = (.ok (), q)) : p.KeepsSymbols q := by
  simp only [Pipeline.runStages_cons_ok] at h
  obtain ⟨p₁, hruntime, p₂, hunused, p₃, hmerge, p₄, hnames, p₅, hunused', p₆, hmerge', hend⟩ := h
  obtain rfl : p₆ = q := by simpa [Pipeline.runStages] using hend
  obtain ⟨h₁, hlive₁⟩ := dropRuntime_keepsSymbols hp hlive hruntime
  have h₂ := h₁.trans (dropUnused_keepsSymbols h₁.wellFormed hlive₁ hunused)
  have h₃ := h₂.trans (mergeEqual_keepsSymbols h₂.wellFormed
    (h₂.lasting .global (by decide) ▸ hglobals) hmerge)
  obtain ⟨hrenamed, hnone⟩ := lowerNames_keepsSymbols h₃.wellFormed hnames
  have h₄ := h₃.trans hrenamed
  have h₅ := h₄.trans (dropUnused_keepsSymbols_of_none h₄.wellFormed hnone hunused')
  exact h₅.trans (mergeEqual_keepsSymbols h₅.wellFormed
    (h₅.lasting .global (by decide) ▸ hglobals) hmerge')

end TileFlow
