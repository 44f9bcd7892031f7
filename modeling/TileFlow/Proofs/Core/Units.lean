import Mathlib.Data.List.Perm.Basic
import TileFlow.Proofs.Core.Device

/-!
# What is at the top

A device is replaced by a global for each buffer with a value, a function for each core and the
declarations of its intrinsics. Nothing else comes to the top, be a core inside another one or not,
and what was at the top besides the device stays.

## Main definitions

* `Program.tops`: the operations at the top.
* `Program.globalsOf`, `Program.functionsOf`: what replaces the buffers and the cores of a device.
* `Operation.CallsApart`: operations that call no function with a symbol of some.
* `Program.Replaces`: a program some of whose devices are replaced.

## Main results

* `Program.Draining.step`: one core becomes a function, wherever it is.
* `lowerDevice_replaced`: one device.
* `lowerCores_replaces`: all devices.
-/

namespace TileFlow

open TileFlow.Action

variable {p q r s : Program} {l l' : List OpId}

/-- The operations at the top of a program. -/
def Program.tops (p : Program) : List Operation :=
  p.body.roots.map p.op

/-! ### Edits at the top -/

/-- Inserting a tree adds its root to the roots. -/
theorem Forest.roots_insertAt (f : Forest OpId) (i : Nat) (a : OpId) (c : Forest OpId) :
    (f.insertAt i a c).roots.Perm (a :: f.roots) := by
  induction f generalizing i with
  | nil => exact .refl _
  | cons b d rest _ ih =>
      cases i with
      | zero => exact .refl _
      | succ j => exact ((ih j).cons b).trans (.swap a b _)

/-- A new operation before one at the top is one more at the top. -/
theorem tops_insertBefore (hp : p.WellFormed) {id : OpId} (hid : id ∈ p.body.roots)
    (op : Operation) : (p.insertBefore id op).2.tops.Perm (op :: p.tops) := by
  obtain ⟨i, hi⟩ := Program.insertBefore_of_mem_roots hp hid op
  have hnew : (p.insertAt none i op).2.op p.slots.size = op := by
    rw [Program.op, Program.slot_insertAt_new]
    rfl
  have hold : p.body.roots.map (p.insertAt none i op).2.op = p.tops :=
    List.map_congr_left fun j hj => Program.op_congr
      (Program.slot_insertAt_none (hp.created j (Program.mem_walk_of_mem_roots hj)) i op)
  rw [hi, Program.tops, Program.body_insertAt_none]
  refine ((Forest.roots_insertAt _ _ _ _).map _).trans ?_
  rw [List.map_cons, hnew, hold]

/-- An operation at the top that is erased is one less at the top. -/
theorem tops_erase (hp : p.WellFormed) {id : OpId} (hid : id ∈ p.body.roots) :
    p.tops.Perm (p.op id :: (p.erase id).tops) := by
  have hroots : (p.erase id).body.roots = p.body.roots.erase id := by
    rw [Program.body_erase, Forest.roots_remove hp.distinct,
      hp.distinct.nodup_roots.erase_eq_filter]
    refine List.filter_congr fun j _ => ?_
    by_cases hj : j = id <;> simp [hj]
  have hops : (p.erase id).tops = (p.body.roots.erase id).map p.op := by
    rw [Program.tops, hroots]
    exact List.map_congr_left fun j _ => Program.op_erase p id j
  rw [hops, ← List.map_cons]
  exact (List.perm_cons_erase hid).map p.op

/-- A core that becomes a function is one more function at the top. -/
theorem Program.Outlined.tops {core : OpId} {code : Forest OpId} {function : Operation}
    {R : Operation → Operation → Prop} (h : p.Outlined core code function R q) (hp : p.WellFormed)
    (hcore : p.body.below? core = some code) (hinner : core ∉ p.body.roots) :
    q.tops.Perm (function :: p.tops) := by
  obtain ⟨i, hbody⟩ := h.body
  have hroots : (p.body.remove core).roots = p.body.roots := by
    rw [Forest.roots_remove hp.distinct, List.filter_eq_self]
    intro j hj
    rw [decide_eq_true_eq]
    rintro rfl
    exact hinner hj
  have hold : p.body.roots.map q.op = p.tops := by
    refine List.map_congr_left fun j hj => h.kept j ?_ ?_
    · exact hp.created j (Program.mem_walk_of_mem_roots hj)
    · exact fun hmem => hp.distinct.notMem_roots_of_below hcore hmem hj
  rw [Program.tops, hbody]
  refine ((Forest.roots_insertAt _ _ _ _).map _).trans ?_
  rw [List.map_cons, h.created, hroots, hold]

/-! ### What replaces a device -/

/-- The global of a buffer, if it has a value. -/
def Operation.global? (buffer : Operation) : Option Operation :=
  match buffer.result, buffer.symbolName? with
  | some _, some symbol => some {
      name := "memref.global", operands := [.symbol symbol], attributes := globalAttributes buffer }
  | _, _ => none

/-- The function of a core, if it sits on a tile. -/
def Program.function? (p : Program) (core : OpId) : Option Operation :=
  (p.owningTile? core).map Tile.standardFunction

/-- The globals of the buffers of a device. -/
def Program.globalsOf (p : Program) (device : OpId) : List Operation :=
  (p.findIn device "aie.buffer").filterMap fun b => (p.op b).global?

/-- The functions of the cores of a device. -/
def Program.functionsOf (p : Program) (device : OpId) : List Operation :=
  (p.findIn device "aie.core").filterMap p.function?

/-- The declaration of an intrinsic. -/
def intrinsicDeclaration (intrinsic : String) : Operation where
  name := "func.func"
  operands := [.symbol intrinsic]
  attributes := .ofList [("sym_visibility", .str "private")]

/-- Whether an operation, if it is a call, names none of some symbols and none of some values. -/
def Operation.CallsApart (symbols values : String → Prop) (op : Operation) : Prop :=
  backendName? op.name = some "llvm.call" →
    (∀ s, op.operandSymbol? 0 = some s → ¬ symbols s) ∧
      ∀ v, op.operandValue? 0 = some v → ¬ values v

/-- An operation that is no call names nothing. -/
theorem Operation.callsApart_of_name {symbols values : String → Prop} {op : Operation}
    (h : backendName? op.name ≠ some "llvm.call") : op.CallsApart symbols values :=
  fun hcall => absurd hcall h

/-- Lowering an operation of a core makes no call of a symbol, if no value that stands for one is
called and no intrinsic is among them. -/
theorem StandardForm.callsApart {symbols values : String → Prop} {intrinsics : String × String}
    {symbol? : String → Option String} {op op' : Operation}
    (h : StandardForm intrinsics symbol? op op') (hop : op.CallsApart symbols values)
    (hintrinsics : ¬ symbols intrinsics.1 ∧ ¬ symbols intrinsics.2)
    (hvalues : ∀ v symbol, symbol? v = some symbol → values v) : op'.CallsApart symbols values := by
  rw [StandardForm] at h
  split at h
  · obtain ⟨intrinsic, n, hintrinsic, -, rfl⟩ := h
    have hapart : ¬ symbols intrinsic := by
      rw [lockIntrinsic?] at hintrinsic
      split at hintrinsic
      · cases hintrinsic
        exact hintrinsics.1
      · split at hintrinsic
        · cases hintrinsic
          exact hintrinsics.2
        · cases hintrinsic
    intro _
    constructor
    · intro s hs
      obtain rfl : intrinsic = s := by simpa [Operation.operandSymbol?, Attribute.symbol?] using hs
      exact hapart
    · intro v hv
      simp [Operation.operandValue?, Attribute.value?] at hv
  · subst h
    intro hcall
    obtain ⟨hsymbols, hnamed⟩ := hop hcall
    -- A value that is called stands for no symbol, so that the callee stays.
    have hsame : (op.operands.map (.substitute symbol?))[0]? = op.operands[0]? := by
      rw [List.getElem?_map]
      cases hfirst : op.operands[0]? with
      | none => rfl
      | some a =>
          rw [Option.map_some, Option.some.injEq]
          cases a with
          | value v =>
              rw [Attribute.substitute]
              cases hsymbol : symbol? v with
              | none => rfl
              | some symbol =>
                  have hvalue : op.operandValue? 0 = some v := by
                    rw [Operation.operandValue?, hfirst]
                    rfl
                  exact absurd (hvalues v symbol hsymbol) (hnamed v hvalue)
          | _ => rfl
    refine ⟨fun s hs => hsymbols s ?_, fun v hv => hnamed v ?_⟩
    · rwa [Operation.operandSymbol?, hsame] at hs
    · rwa [Operation.operandValue?, hsame] at hv

/-! ### Globals -/

/-- Whether no call of a program names some symbols or some values. -/
def Program.CallsApart (p : Program) (symbols values : String → Prop) : Prop :=
  ∀ id ∈ p.walk, (p.op id).CallsApart symbols values

variable {symbols values : String → Prop}

/-- A new operation before one at the top calls nothing, if it is no call. -/
theorem Program.CallsApart.insertBefore (h : p.CallsApart symbols values) (hp : p.WellFormed)
    {anchor : OpId} (hanchor : anchor ∈ p.body.roots) {op : Operation}
    (hop : op.CallsApart symbols values) :
    (p.insertBefore anchor op).2.CallsApart symbols values := by
  obtain ⟨i, hi⟩ := Program.insertBefore_of_mem_roots hp hanchor op
  rw [hi]
  intro j hj
  rcases Program.mem_walk_insertAt_none.1 hj with rfl | hold
  · rw [Program.op, Program.slot_insertAt_new]
    exact hop
  · rw [Program.op_congr (Program.slot_insertAt_none (hp.created j hold) i op)]
    exact h j hold

/-- An operation that is erased calls nothing. -/
theorem Program.CallsApart.erase (h : p.CallsApart symbols values) (hp : p.WellFormed) (id : OpId) :
    (p.erase id).CallsApart symbols values := by
  intro j hj
  rw [Program.op_erase]
  exact h j (Forest.mem_preorder_of_remove hp.distinct hj)

/-- The global of a buffer comes to the top, if it has a value. -/
theorem insertGlobal_unfold (hp : p.WellFormed) {device buffer : OpId}
    {table table' : BufferSymbols}
    (hdevice : device ∈ p.body.roots) (hcalls : p.CallsApart symbols values)
    (h : runOn (insertGlobal device table buffer) p = (.ok table', q)) :
    q.tops.Perm ((p.op buffer).global?.toList ++ p.tops) ∧ q.CallsApart symbols values := by
  rw [insertGlobal, get_bind_ok] at h
  dsimp only at h
  split at h
  · rename_i value symbol hresult hsymbol
    obtain ⟨_, u, hinsert, h⟩ := bind_ok.1 h
    rw [runOn_insertBefore, Prod.mk.injEq] at hinsert
    obtain ⟨-, rfl⟩ := hinsert
    obtain ⟨-, rfl⟩ := pure_ok.1 h
    rw [Operation.global?, hresult, hsymbol]
    exact ⟨tops_insertBefore hp hdevice _,
      hcalls.insertBefore hp hdevice (Operation.callsApart_of_name
        (backendName?_global.trans_ne (by decide)))⟩
  · rename_i hnone
    obtain ⟨-, rfl⟩ := pure_ok.1 h
    have hglobal : (p.op buffer).global? = none := by
      rw [Operation.global?]
      split
      · rename_i value symbol hresult hsymbol
        exact absurd hsymbol (hnone value symbol hresult)
      · rfl
    rw [hglobal]
    exact ⟨.refl _, hcalls⟩

/-- The globals of some buffers come to the top. -/
theorem insertGlobals_unfold (hp : p.WellFormed) (hlive : ∀ id ∈ p.walk, p.isLive id = true)
    {device : OpId} {buffers : List OpId} {table table' : BufferSymbols}
    (hdevice : device ∈ p.body.roots) (hbuffers : ∀ b ∈ buffers, b ∈ p.walk)
    (hcalls : p.CallsApart symbols values)
    (h : runOn (buffers.foldlM (insertGlobal device) table) p = (.ok table', q)) :
    q.tops.Perm (buffers.filterMap (fun b => (p.op b).global?) ++ p.tops) ∧
      q.CallsApart symbols values := by
  induction buffers generalizing p table with
  | nil =>
      obtain ⟨-, rfl⟩ := foldlM_nil_ok.1 h
      exact ⟨.refl _, hcalls⟩
  | cons b buffers ih =>
      obtain ⟨table₁, r, hb, h⟩ := foldlM_cons_ok.1 h
      obtain ⟨hr, -⟩ := insertGlobal_ok hp hlive hdevice hb
      obtain ⟨hfirst, hrcalls⟩ := insertGlobal_unfold hp hdevice hcalls hb
      have hrest : ∀ a ∈ buffers, a ∈ p.walk := fun a ha => hbuffers a (List.mem_cons_of_mem _ ha)
      obtain ⟨htops, hq⟩ := ih hr.wellFormed hr.live (hr.mem_roots hdevice)
        (fun a ha => hr.mem_walk (hrest a ha)) hrcalls h
      have hsame : buffers.filterMap (fun b => (r.op b).global?) =
          buffers.filterMap fun b => (p.op b).global? :=
        List.filterMap_congr fun a ha => by rw [hr.op (hrest a ha)]
      refine ⟨?_, hq⟩
      calc q.tops.Perm _ := htops
        List.Perm _ (buffers.filterMap (fun b => (p.op b).global?) ++
            ((p.op b).global?.toList ++ p.tops)) := by rw [hsame]; exact hfirst.append_left _
        List.Perm _ _ := by
          rw [List.filterMap_cons]
          cases (p.op b).global? with
          | none => exact .refl _
          | some g => exact List.perm_middle

/-! ### Functions -/

/-- The operations of a program with a function for a core are those before, and the function. -/
theorem Program.Outlined.mem_walk_of_ne {core : OpId} {code : Forest OpId} {function : Operation}
    {R : Operation → Operation → Prop} (h : p.Outlined core code function R q) (hp : p.WellFormed)
    (hcore : p.body.below? core = some code) {id : OpId} (hid : id ∈ p.walk) (hne : id ≠ core) :
    id ∈ q.walk := by
  obtain ⟨i, hbody⟩ := h.body
  rw [Program.walk, hbody, Forest.mem_preorder_insertAt,
    Forest.mem_preorder_remove hp.distinct hcore]
  by_cases hcode : id ∈ code.preorder
  · exact .inr (.inl hcode)
  · exact .inr (.inr ⟨hid, hne, hcode⟩)

/-- What is at the top of a program with a function for a core. -/
theorem Program.Outlined.mem_roots {core : OpId} {code : Forest OpId} {function : Operation}
    {R : Operation → Operation → Prop} (h : p.Outlined core code function R q) (hp : p.WellFormed)
    (hinner : core ∉ p.body.roots) {id : OpId} :
    id ∈ q.body.roots ↔ id = p.slots.size ∨ id ∈ p.body.roots := by
  obtain ⟨i, hbody⟩ := h.body
  rw [hbody, (Forest.roots_insertAt _ _ _ _).mem_iff, List.mem_cons,
    Forest.roots_remove hp.distinct,
    List.mem_filter, decide_eq_true_eq]
  refine or_congr_right (and_iff_left_of_imp fun hid => ?_)
  rintro rfl
  exact hinner hid

/-- A device whose cores become functions one after the other: those that wait are below the top,
and name the tiles that they named. -/
structure Program.Draining (p : Program) (device : OpId) (rest : List OpId)
    (r : Program) : Prop where
  leaves : p.Leaves [device] r
  mem_roots : device ∈ r.body.roots
  same : r.op device = p.op device
  waiting : ∀ core ∈ rest, core ∈ r.walk ∧ core ∉ r.body.roots ∧
    Program.KeepsPlace (p.op core) (r.op core)

/-- A device some of whose cores have become functions, when all that was at the top before them is
there still. -/
structure Program.Unfolding (p : Program) (symbols values : String → Prop) (device : OpId)
    (before : List Operation) (done rest : List OpId) (r : Program) : Prop extends
    p.Draining device rest r where
  live : ∀ id ∈ r.walk, r.isLive id = true
  placed : ∀ core ∈ done, (p.owningTile? core).isSome = true
  tops : r.tops.Perm (done.filterMap p.function? ++ before)
  calls : r.CallsApart symbols values

/-- Unfolding a device touches that device only. -/
theorem Program.Unfolding.spares {symbols values : String → Prop} {device : OpId}
    {before : List Operation} {done rest : List OpId}
    (h : p.Unfolding symbols values device before done rest r) : p.Spares [device] r :=
  ⟨h.leaves, h.live⟩

/-- An operation sits on the tile that it sits on in the program before, if it keeps its place. -/
theorem Program.Resolves.owningTile?_of_keepsPlace (h : p.Resolves q) (hp : p.definedValues.Nodup)
    {id : OpId} (hop : Program.KeepsPlace (p.op id) (q.op id)) {tile : Tile}
    (htile : q.owningTile? id = some tile) : p.owningTile? id = some tile := by
  rw [Program.owningTile?_eq] at htile ⊢
  obtain ⟨v, hv, hplace⟩ := Option.bind_eq_some_iff.1 htile
  rw [hop.operand v hv, Option.bind_some, h.placeOf? hp hplace]

section Draining

variable {device core : OpId} {rest : List OpId} {table : BufferSymbols}

/-- One more core becomes a function, be it in the device or in the function of a core around it. -/
theorem Program.Draining.step (h : p.Draining device (core :: rest) r) (hp : p.WellFormed)
    (hvalues : p.definedValues.Nodup) (hdevice : device ∈ p.body.roots)
    (hcore : core ∈ p.walkIn device) (hfresh : core ∉ rest)
    (hrun : runOn (lowerCore device table core) r = (.ok (), s)) :
    ∃ tile code, p.owningTile? core = some tile ∧ r.body.below? core = some code ∧
      core ∉ r.body.roots ∧ r.Outlined core code tile.standardFunction
        (StandardForm (r.modelOf device).lockIntrinsics table.get?) s ∧
    p.Draining device rest s := by
  obtain ⟨hwalk, hinner, hplace⟩ := h.waiting core List.mem_cons_self
  have hr := h.leaves.wellFormed
  -- The core is in some tree at the top, which is a function when the core was inside another one.
  obtain ⟨⟨root, inside⟩, htree, hmem⟩ := Forest.mem_preorder_iff_trees.1 hwalk
  have hin : core ∈ inside.preorder := by
    refine hmem.resolve_left ?_
    rintro rfl
    exact hinner (Forest.mem_roots.2 ⟨_, htree⟩)
  obtain ⟨code, hcode⟩ := Forest.mem_preorder_iff.1 hin
  have hbelow := Forest.below?_trans hr.distinct
    (Forest.below?_of_mem_trees hr.distinct htree) hcode
  obtain ⟨tile, htile, hout⟩ := lowerCore_outlined hr h.mem_roots hbelow hinner hrun
  have hleaves := hout.leaves hr htree hcode rfl fun _ _ => StandardForm.keepsPlace
  have hnotcode : ∀ id ∈ r.body.roots, id ∉ code.preorder := fun id hid hmem =>
    hr.distinct.notMem_roots_of_below hbelow hmem hid
  refine ⟨tile, code, h.leaves.resolves.owningTile?_of_keepsPlace hvalues hplace htile, hbelow,
    hinner, hout, ?_, ?_, ?_, fun other hother => ?_⟩
  · refine (h.leaves.trans hleaves).restrict fun t ht hne => ?_
    rw [List.mem_singleton] at hne
    simp only [List.cons_append, List.nil_append, List.mem_cons, List.not_mem_nil, or_false, not_or]
    refine ⟨hne, ?_⟩
    rintro rfl
    obtain ⟨contents, hcontents⟩ := Forest.mem_roots.1 hdevice
    have hkept := (h.leaves.trees t ht (by simpa using hne)).1
    have hsame : t.2 = inside := hr.distinct.eq_of_mem_trees hkept htree
    rw [Program.walkIn,
      Program.below_of_below? (Forest.below?_of_mem_trees hp.distinct hcontents)] at hcore
    exact hp.distinct.trees_disjoint hcontents ht (Ne.symm hne) hcore (hsame ▸ hin)
  · exact (hout.mem_roots hr hinner).2 (.inr h.mem_roots)
  · rw [hout.kept device (hr.created device (Program.mem_walk_of_mem_roots h.mem_roots))
      (hnotcode device h.mem_roots), h.same]
  · obtain ⟨hotherwalk, hotherinner, hotherplace⟩ := h.waiting other (List.mem_cons_of_mem _ hother)
    have hne : other ≠ core := fun heq => hfresh (heq ▸ hother)
    have hcreated := hr.created other hotherwalk
    refine ⟨hout.mem_walk_of_ne hr hbelow hotherwalk hne, fun hroot => ?_, ?_⟩
    · rcases (hout.mem_roots hr hinner).1 hroot with heq | hroot
      · exact Nat.ne_of_lt hcreated heq
      · exact hotherinner hroot
    · by_cases hothercode : other ∈ code.preorder
      · exact hotherplace.trans (StandardForm.keepsPlace (hout.lowered other hothercode))
      · rwa [hout.kept other hcreated hothercode]

/-- The cores of a device wait to become functions. -/
theorem Program.Draining.start (hp : p.WellFormed) (hr : p.Leaves [] r)
    (hdevice : device ∈ p.body.roots) : p.Draining device (p.findIn device "aie.core") r := by
  obtain ⟨inside, hinside⟩ := Forest.mem_roots.1 hdevice
  have hbelow := Forest.below?_of_mem_trees hp.distinct hinside
  have hwalk := Program.mem_walk_of_mem_roots hdevice
  refine ⟨hr.mono (by simp), hr.mem_roots hdevice, hr.op hwalk, fun core hcore => ?_⟩
  have hmem := (List.mem_filter.1 hcore).1
  have hcorewalk := hp.mem_walk_of_walkIn hwalk hmem
  rw [Program.walkIn, Program.below_of_below? hbelow] at hmem
  refine ⟨hr.mem_walk hcorewalk, ?_, by rw [hr.op hcorewalk]; exact .refl _⟩
  exact hr.wellFormed.distinct.notMem_roots_of_below
    (Forest.below?_of_mem_trees hr.wellFormed.distinct (hr.trees _ hinside List.not_mem_nil).1) hmem

end Draining

section Unfolding

variable {device core : OpId} {before : List Operation} {done rest : List OpId}
  {table : BufferSymbols}

/-- One more core becomes a function. -/
theorem Program.Unfolding.step (h : p.Unfolding symbols values device before done (core :: rest) r)
    (hp : p.WellFormed) (hvalues : p.definedValues.Nodup) (hdevice : device ∈ p.body.roots)
    (htable : ∀ v symbol, table.get? v = some symbol → values v)
    (hintrinsics : ¬ symbols (p.modelOf device).lockIntrinsics.1 ∧
      ¬ symbols (p.modelOf device).lockIntrinsics.2)
    (hcore : core ∈ p.walkIn device) (hfresh : core ∉ rest)
    (hrun : runOn (lowerCore device table core) r = (.ok (), s)) :
    p.Unfolding symbols values device before (done ++ [core]) rest s := by
  obtain ⟨tile, code, htile, hbelow, hinner, hout, hdraining⟩ :=
    h.toDraining.step hp hvalues hdevice hcore hfresh hrun
  have hr := h.leaves.wellFormed
  have hfunction : p.function? core = some tile.standardFunction := by
    rw [Program.function?, htile, Option.map_some]
  have hmodel : r.modelOf device = p.modelOf device := by
    rw [Program.modelOf, h.same, Program.modelOf]
  refine ⟨hdraining, fun id hid => ?_, fun c hc => ?_, ?_, fun id hid => ?_⟩
  · rcases hout.mem_walk hr hbelow hid with rfl | ⟨hold, hne⟩
    · exact hout.live.1
    · rw [hout.live.2 id (hr.created id hold) hne, h.live id hold]
  · rcases List.mem_append.1 hc with hc | hc
    · exact h.placed c hc
    · rw [List.mem_singleton.1 hc, htile]
      rfl
  · rw [List.filterMap_append, List.append_assoc]
    refine (hout.tops hr hbelow hinner).trans ((h.tops.cons _).trans ?_)
    rw [List.filterMap_cons, hfunction]
    exact List.perm_middle.symm
  · rcases hout.mem_walk hr hbelow hid with rfl | ⟨hold, -⟩
    · rw [hout.created]
      exact Operation.callsApart_of_name
        (backendName?_function.trans_ne (by decide))
    · by_cases hidcode : id ∈ code.preorder
      · exact (hout.lowered id hidcode).callsApart (h.calls id hold) (hmodel ▸ hintrinsics) htable
      · rw [hout.kept id (hr.created id hold) hidcode]
        exact h.calls id hold

/-- All cores of a device become functions, be they inside each other or not. -/
theorem Program.Unfolding.run (h : p.Unfolding symbols values device before done rest r)
    (hp : p.WellFormed) (hvalues : p.definedValues.Nodup) (hdevice : device ∈ p.body.roots)
    (htable : ∀ v symbol, table.get? v = some symbol → values v)
    (hintrinsics : ¬ symbols (p.modelOf device).lockIntrinsics.1 ∧
      ¬ symbols (p.modelOf device).lockIntrinsics.2)
    (hcores : ∀ core ∈ rest, core ∈ p.walkIn device) (hnodup : rest.Nodup)
    (hrun : runOn (rest.forM (lowerCore device table)) r = (.ok (), s)) :
    p.Unfolding symbols values device before (done ++ rest) [] s := by
  induction rest generalizing done r with
  | nil =>
      obtain rfl := forM_nil_ok.1 hrun
      rwa [List.append_nil]
  | cons core rest ih =>
      obtain ⟨u, hcore, hrun⟩ := forM_cons_ok.1 hrun
      obtain ⟨hfresh, hnodup⟩ := List.nodup_cons.1 hnodup
      have hstep := h.step hp hvalues hdevice htable hintrinsics (hcores core List.mem_cons_self)
        hfresh hcore
      have := ih hstep (fun c hc => hcores c (List.mem_cons_of_mem _ hc)) hnodup hrun
      rwa [List.append_assoc, List.singleton_append] at this

/-- The cores of a device wait to become functions. -/
theorem Program.Unfolding.start (hp : p.WellFormed) (hr : p.Spares [] r)
    (hcalls : r.CallsApart symbols values) (hdevice : device ∈ p.body.roots) :
    p.Unfolding symbols values device r.tops [] (p.findIn device "aie.core") r :=
  ⟨.start hp hr.toLeaves hdevice, hr.live, fun _ hc => absurd hc List.not_mem_nil, .refl _, hcalls⟩

end Unfolding

/-! ### One device -/

/-- The declaration of an intrinsic comes to the top, unless there is one. -/
theorem declareIntrinsic_unfold (hp : p.WellFormed) {device : OpId}
    {declared declared' : List String}
    {intrinsic : String} (hdevice : device ∈ p.body.roots) (hcalls : p.CallsApart symbols values)
    (h : runOn (declareIntrinsic device declared intrinsic) p = (.ok declared', q)) :
    (∃ new, (∀ d ∈ new, d = intrinsicDeclaration intrinsic) ∧ q.tops.Perm (new ++ p.tops)) ∧
      q.CallsApart symbols values := by
  rw [declareIntrinsic] at h
  split at h
  · obtain ⟨-, rfl⟩ := pure_ok.1 h
    exact ⟨⟨[], by simp, .refl _⟩, hcalls⟩
  · obtain ⟨_, u, hinsert, h⟩ := bind_ok.1 h
    rw [runOn_insertBefore, Prod.mk.injEq] at hinsert
    obtain ⟨-, rfl⟩ := hinsert
    obtain ⟨-, rfl⟩ := pure_ok.1 h
    exact ⟨⟨[intrinsicDeclaration intrinsic], by simp, tops_insertBefore hp hdevice _⟩,
      hcalls.insertBefore hp hdevice (Operation.callsApart_of_name
        (backendName?_function.trans_ne (by decide)))⟩

/-- What is at the top when a device is replaced: the functions of its cores, all of which sit on
tiles, the globals of its buffers, and declarations of its intrinsics. -/
structure Program.Replaced (p : Program) (device : OpId) (q : Program) : Prop where
  spares : p.Spares [device] q
  placed : ∀ core ∈ p.findIn device "aie.core", (p.owningTile? core).isSome = true
  tops : ∃ new, (∀ d ∈ new, d = intrinsicDeclaration (p.modelOf device).lockIntrinsics.1 ∨
      d = intrinsicDeclaration (p.modelOf device).lockIntrinsics.2) ∧
    (p.op device :: q.tops).Perm (new ++ (p.functionsOf device ++ p.globalsOf device) ++ p.tops)

/-- A device is replaced. -/
theorem lowerDevice_replaced (hp : p.WellFormed) (hlive : ∀ id ∈ p.walk, p.isLive id = true)
    (hvalues : p.definedValues.Nodup) {device : OpId} {declared declared' : List String}
    (hdevice : device ∈ p.body.roots)
    (hbuffers : ∀ v symbol, p.bufferSymbol? device v = some symbol → values v)
    (hintrinsics : ¬ symbols (p.modelOf device).lockIntrinsics.1 ∧
      ¬ symbols (p.modelOf device).lockIntrinsics.2)
    (hcalls : p.CallsApart symbols values)
    (h : runOn (lowerDevice declared device) p = (.ok declared', q)) :
    p.Replaced device q ∧ q.CallsApart symbols values := by
  have hwalk := Program.mem_walk_of_mem_roots hdevice
  obtain ⟨contents, hcontents⟩ := Forest.mem_roots.1 hdevice
  rw [lowerDevice, get_bind_ok] at h
  obtain ⟨table, r, hglobals, h⟩ := bind_ok.1 h
  have hmem : ∀ b ∈ p.findIn device "aie.buffer", b ∈ p.walk := fun b hb =>
    hp.mem_walk_of_walkIn hwalk (List.mem_filter.1 hb).1
  obtain ⟨hr, rfl⟩ := insertGlobals_ok hp hlive hdevice hmem hglobals
  obtain ⟨hrtops, hrcalls⟩ := insertGlobals_unfold hp hlive hdevice hmem hcalls hglobals
  rw [get_bind_ok, hr.findIn hp hcontents List.not_mem_nil (.inl rfl)] at h
  obtain ⟨_, s, hcores, h⟩ := bind_ok.1 h
  have hs := (Program.Unfolding.start hp hr hrcalls hdevice).run hp hvalues hdevice
    (fun v symbol hsymbol => hbuffers v symbol (by
      rw [← deviceSymbols_get? hp hvalues hwalk v, hsymbol]))
    hintrinsics (fun core hcore => (List.mem_filter.1 hcore).1) (hp.nodup_findIn hwalk _) hcores
  rw [List.nil_append] at hs
  -- The declarations come before the device, which goes away last.
  obtain ⟨_, t, hdeclare, h⟩ := bind_ok.1 h
  obtain ⟨_, u, hacquire, hdeclare⟩ := foldlM_cons_ok.1 hdeclare
  obtain ⟨_, v, hrelease, hdeclare⟩ := foldlM_cons_ok.1 hdeclare
  obtain ⟨-, rfl⟩ := foldlM_nil_ok.1 hdeclare
  have hu := declareIntrinsic_ok hs.spares.wellFormed hs.spares.live hs.mem_roots hacquire
  have hv := declareIntrinsic_ok hu.wellFormed hu.live (hu.mem_roots hs.mem_roots) hrelease
  obtain ⟨⟨new₁, hnew₁, htops₁⟩, hucalls⟩ :=
    declareIntrinsic_unfold hs.spares.wellFormed hs.mem_roots hs.calls hacquire
  obtain ⟨⟨new₂, hnew₂, htops₂⟩, hvcalls⟩ :=
    declareIntrinsic_unfold hu.wellFormed (hu.mem_roots hs.mem_roots) hucalls hrelease
  have hvroot := hv.mem_roots (hu.mem_roots hs.mem_roots)
  obtain ⟨_, w, herase, h⟩ := bind_ok.1 h
  rw [runOn_erase, Prod.mk.injEq] at herase
  obtain ⟨-, rfl⟩ := herase
  obtain ⟨-, rfl⟩ := pure_ok.1 h
  have hend := (hu.trans hv).trans (erase_spares hv.wellFormed hv.live hvroot)
  have hsame : v.op device = p.op device := by
    rw [hv.op (Program.mem_walk_of_mem_roots (hu.mem_roots hs.mem_roots)),
      hu.op (Program.mem_walk_of_mem_roots hs.mem_roots), hs.same]
  refine ⟨⟨(hs.spares.trans hend).mono (by simp), hs.placed, new₂ ++ new₁, ?_, ?_⟩,
    hvcalls.erase hv.wellFormed device⟩
  · intro d hd
    rcases List.mem_append.1 hd with hd | hd
    · exact .inr (hnew₂ d hd)
    · exact .inl (hnew₁ d hd)
  · calc (p.op device :: (v.erase device).tops).Perm v.tops := by
          rw [← hsame]
          exact (tops_erase hv.wellFormed hvroot).symm
      List.Perm _ (new₂ ++ (new₁ ++ (p.functionsOf device ++ (p.globalsOf device ++ p.tops)))) :=
        htops₂.trans
          ((htops₁.trans ((hs.tops.trans (hrtops.append_left _)).append_left _)).append_left _)
      _ = _ := by simp only [List.append_assoc]

/-! ### All devices -/

/-- A program some of whose devices are replaced. -/
structure Program.Replaces (p : Program) (done : List OpId) (q : Program) : Prop where
  spares : p.Spares done q
  placed : ∀ device ∈ done, ∀ core ∈ p.findIn device "aie.core",
    (p.owningTile? core).isSome = true
  tops : ∃ new, (∀ d ∈ new, ∃ device ∈ done,
      d = intrinsicDeclaration (p.modelOf device).lockIntrinsics.1 ∨
      d = intrinsicDeclaration (p.modelOf device).lockIntrinsics.2) ∧
    (done.map p.op ++ q.tops).Perm
      (new ++ done.flatMap (fun device => p.functionsOf device ++ p.globalsOf device) ++ p.tops)

/-- What replaces a device that is kept. -/
theorem Program.Leaves.units {device : OpId} (h : p.Leaves l q) (hp : p.WellFormed)
    (hvalues : p.definedValues.Nodup) (hdevice : device ∈ p.body.roots) (hl : device ∉ l)
    (hplaced : ∀ core ∈ q.findIn device "aie.core", (q.owningTile? core).isSome = true) :
    (∀ core ∈ p.findIn device "aie.core", (p.owningTile? core).isSome = true) ∧
      q.functionsOf device = p.functionsOf device ∧ q.globalsOf device = p.globalsOf device := by
  obtain ⟨inside, hinside⟩ := Forest.mem_roots.1 hdevice
  have hfind := fun name => h.findIn hp hinside hl (.inl rfl) name
  have hop : ∀ name, ∀ id ∈ p.findIn device name, q.op id = p.op id := fun name id hid =>
    (h.trees _ hinside hl).2 id (.inr ((h.below hp hinside hl (.inl rfl)).2 id
      (List.mem_filter.1 hid).1))
  have htile : ∀ core ∈ p.findIn device "aie.core", ∃ tile,
      q.owningTile? core = some tile ∧ p.owningTile? core = some tile := fun core hcore => by
    obtain ⟨tile, htile⟩ := Option.isSome_iff_exists.1 (hplaced core (hfind _ ▸ hcore))
    exact ⟨tile, htile, h.resolves.owningTile? hvalues (hop _ core hcore) htile⟩
  refine ⟨fun core hcore => ?_, ?_, ?_⟩
  · obtain ⟨tile, -, htile⟩ := htile core hcore
    rw [htile]
    rfl
  · rw [Program.functionsOf, hfind, Program.functionsOf]
    refine List.filterMap_congr fun core hcore => ?_
    obtain ⟨tile, htileq, htilep⟩ := htile core hcore
    rw [Program.function?, htileq, Program.function?, htilep]
  · rw [Program.globalsOf, hfind, Program.globalsOf]
    exact List.filterMap_congr fun b hb => by rw [hop _ b hb]

section Replaces

variable {device : OpId} {done : List OpId}

/-- One more device is replaced. -/
theorem Program.Replaces.step (h : p.Replaces done r) (hp : p.WellFormed)
    (hvalues : p.definedValues.Nodup) (hdevice : device ∈ p.body.roots) (hfresh : device ∉ done)
    (hs : r.Replaced device s) : p.Replaces (done ++ [device]) s := by
  obtain ⟨inside, hinside⟩ := Forest.mem_roots.1 hdevice
  have hop : r.op device = p.op device := (h.spares.trees _ hinside hfresh).2 device (.inl rfl)
  have hmodel : r.modelOf device = p.modelOf device := by
    rw [Program.modelOf, hop, Program.modelOf]
  obtain ⟨hplaced, hfunctions, hglobals⟩ := h.spares.units hp hvalues hdevice hfresh hs.placed
  obtain ⟨new, hnew, htops⟩ := h.tops
  obtain ⟨new', hnew', htops'⟩ := hs.tops
  rw [hmodel] at hnew'
  rw [hop, hfunctions, hglobals] at htops'
  refine ⟨h.spares.trans hs.spares, fun d hd => ?_, new' ++ new, fun d hd => ?_, ?_⟩
  · rcases List.mem_append.1 hd with hd | hd
    · exact h.placed d hd
    · exact List.mem_singleton.1 hd ▸ hplaced
  · rcases List.mem_append.1 hd with hd | hd
    · exact ⟨device, by simp, hnew' d hd⟩
    · obtain ⟨e, he, hde⟩ := hnew d hd
      exact ⟨e, List.mem_append_left _ he, hde⟩
  · generalize hunits : p.functionsOf device ++ p.globalsOf device = units at htops'
    calc
      ((done ++ [device]).map p.op ++ s.tops).Perm (done.map p.op ++ (p.op device :: s.tops)) := by
          simp
      List.Perm _ (done.map p.op ++ ((new' ++ units) ++ r.tops)) := htops'.append_left _
      List.Perm _ ((new' ++ units) ++ (done.map p.op ++ r.tops)) :=
          List.perm_append_comm_assoc _ _ _
      List.Perm _ ((new' ++ units) ++ (new ++ done.flatMap _ ++ p.tops)) := htops.append_left _
      List.Perm _ (new' ++ (new ++ done.flatMap _ ++ (units ++ p.tops))) := by
          rw [List.append_assoc]
          exact (List.perm_append_comm_assoc _ _ _).append_left _
      _ = _ := by
          rw [List.flatMap_append, List.flatMap_singleton, hunits]
          simp only [List.append_assoc]

/-- All devices are replaced. -/
theorem lowerCores_replaces (hp : p.WellFormed) (hlive : ∀ id ∈ p.walk, p.isLive id = true)
    (hvalues : p.definedValues.Nodup)
    (hbuffers : ∀ device ∈ p.devices, ∀ v symbol,
      p.bufferSymbol? device v = some symbol → values v)
    (hintrinsics : ∀ device ∈ p.devices, ¬ symbols (p.modelOf device).lockIntrinsics.1 ∧
      ¬ symbols (p.modelOf device).lockIntrinsics.2)
    (hcalls : p.CallsApart symbols values) (h : runOn lowerCores p = (.ok (), q)) :
    p.Replaces p.devices q ∧ q.CallsApart symbols values := by
  rw [lowerCores, get_bind_ok] at h
  obtain ⟨declared, r, hloop, h⟩ := bind_ok.1 h
  obtain ⟨-, rfl⟩ := pure_ok.1 h
  have hnodup : p.devices.Nodup := List.Pairwise.filter _ hp.distinct.nodup_roots
  let I := fun (done : List OpId) (_ : List String) (q : Program) =>
    p.Replaces done q ∧ q.CallsApart symbols values
  have hend : I p.devices declared r := by
    refine foldlM_prefix hnodup hloop
      ⟨⟨.refl hp hlive, fun _ hd => absurd hd List.not_mem_nil, [], by simp, by simp⟩, hcalls⟩ ?_
    rintro device hdevice done hfresh _ _ q s ⟨hq, hqcalls⟩ hstep
    have hroot : device ∈ p.body.roots := (List.mem_filter.1 hdevice).1
    obtain ⟨inside, hinside⟩ := Forest.mem_roots.1 hroot
    obtain ⟨hinsideq, hop⟩ := hq.spares.trees _ hinside hfresh
    have hmodel : q.modelOf device = p.modelOf device := by
      rw [Program.modelOf, hop device (.inl rfl), Program.modelOf]
    obtain ⟨hs, hscalls⟩ := lowerDevice_replaced hq.spares.wellFormed hq.spares.live
      (hq.spares.resolves.nodup hvalues hq.spares.wellFormed) (Forest.mem_roots.2 ⟨_, hinsideq⟩)
      (by rw [hq.spares.bufferSymbol? hp hroot hfresh]; exact hbuffers device hdevice)
      (hmodel ▸ hintrinsics device hdevice) hqcalls hstep
    exact ⟨hq.step hp hvalues hroot hfresh hs, hscalls⟩
  exact hend

end Replaces

end TileFlow
