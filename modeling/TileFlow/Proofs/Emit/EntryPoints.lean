import TileFlow.Emit.Target
import TileFlow.Proofs.Emit.UniqueSymbols

/-!
# Entry points are defined

What is linked against the backend program are the entry points of the cores, which are read off the
program before it is lowered. Every one of them is defined: a core becomes a function right before
its device, so that the functions stand at the top in the order of the cores, and nothing that is
done later drops a function, moves it or gives it another symbol.

## Main definitions

* `Program.definitions`: the functions with a body at the top.
* `Program.newDefinitions`: those that another program did not have.
* `Program.Lists`: what is at the top of a program some of whose devices are replaced.

## Main results

* `lowerDevice_lists`: the functions of one device come in the order of its cores.
* `lowerCores_lists`: the functions of all devices do.
* `unified_defines_entryPoints`: the functions that the backend text defines for the cores are the
  entry points.
* `unified_misses_entryPoint`: a core in a device that is not at the top has none.
-/

namespace TileFlow

open TileFlow.Action

variable {p q r s : Program}

/-- The functions with a body at the top, in program order. -/
def Program.definitions (p : Program) : List OpId :=
  p.body.roots.filter fun id => (p.op id).unitKind? = some .definition

/-- The functions with a body at the top of a program that an earlier one did not have. -/
def Program.newDefinitions (p q : Program) : List OpId :=
  q.definitions.filter fun id => p.slots.size ≤ id

/-! ### Places at the top -/

/-- A tree inserted between two parts of the roots stands between them. -/
theorem Forest.roots_insertAt_of_append {f : Forest OpId} {before later : List OpId}
    (h : f.roots = before ++ later) (a : OpId) (c : Forest OpId) :
    (f.insertAt before.length a c).roots = before ++ a :: later := by
  induction f generalizing before with
  | nil =>
      obtain ⟨rfl, rfl⟩ := List.append_eq_nil_iff.1 h.symm
      rfl
  | cons b d rest _ ih =>
      cases before with
      | nil => rw [List.length_nil, Forest.insertAt, Forest.roots, h]; rfl
      | cons x before =>
          rw [Forest.roots, List.cons_append, List.cons.injEq] at h
          rw [List.length_cons, Forest.insertAt, Forest.roots, ih h.2, h.1]
          rfl

/-- Removing what is no root leaves the roots. -/
theorem Forest.roots_remove_of_notMem {f : Forest OpId} {a : OpId} (h : a ∉ f.roots) :
    (f.remove a).roots = f.roots := by
  induction f with
  | nil => rfl
  | cons b c rest _ ih =>
      rw [Forest.roots, List.mem_cons, not_or] at h
      rw [Forest.remove, if_neg (Ne.symm h.1), Forest.roots, ih h.2, Forest.roots]

/-- A new operation comes right before the one at the top that it is put before. -/
theorem Program.roots_insertBefore (hp : p.WellFormed) {before later : List OpId} {anchor : OpId}
    (h : p.body.roots = before ++ anchor :: later) (op : Operation) :
    (p.insertBefore anchor op).2.body.roots = before ++ p.slots.size :: anchor :: later := by
  have hplace : p.body.roots[before.length]? = some anchor := by
    rw [h, List.getElem?_append_right (Nat.le_refl _), Nat.sub_self, List.getElem?_cons_zero]
  have hlocate : p.body.locateFrom? anchor none 0 = some (none, 0 + before.length) :=
    Forest.locateFrom?_of_getElem?_roots hp.distinct hplace
  rw [Program.insertBefore, Program.locate?, Forest.locate?, hlocate, Option.some_or, Nat.zero_add]
  dsimp only
  rw [Program.body_insertAt_none, Forest.roots_insertAt_of_append h]

/-- The function of a core comes right before its device. -/
theorem lowerCore_roots (hp : p.WellFormed) {before later : List OpId} {device core : OpId}
    {code : Forest OpId} {table : BufferSymbols} (hroots : p.body.roots = before ++ device :: later)
    (hcore : p.body.below? core = some code) (hinner : core ∉ p.body.roots)
    (h : runOn (lowerCore device table core) p = (.ok (), q)) :
    q.body.roots = before ++ p.slots.size :: device :: later := by
  rw [lowerCore, get_bind_ok] at h
  obtain ⟨tile, -, h⟩ := orFail_bind_ok.1 h
  obtain ⟨_, r, hops, h⟩ := bind_ok.1 h
  have hr : r.body = p.body ∧ r.slots.size = p.slots.size := by
    refine forM_induction (I := fun r => r.body = p.body ∧ r.slots.size = p.slots.size) hops
      ⟨rfl, rfl⟩ fun id _ r s hr hstep => ?_
    obtain ⟨g, rfl, -⟩ := lowerCoreOp_ok hstep
    rwa [Program.body_modify, Program.size_modify]
  obtain ⟨hbody, hsize⟩ := hr
  have hwf : r.WellFormed := ⟨hbody ▸ hp.distinct, fun id hid => by
    rw [hsize]
    rw [Program.walk, hbody] at hid
    exact hp.created id hid⟩
  have hroot : device ∈ r.body.roots := by
    rw [hbody, hroots]
    exact List.mem_append_right _ List.mem_cons_self
  obtain ⟨function, base, hinsert, h⟩ := bind_ok.1 h
  have hnew := Program.roots_insertBefore hwf (hbody ▸ hroots)
    { name := "func.func", operands := [.symbol tile.coreSymbol], hasRegion := true }
  obtain ⟨i, hi⟩ := Program.insertBefore_of_mem_roots hwf hroot
    { name := "func.func", operands := [.symbol tile.coreSymbol], hasRegion := true }
  rw [runOn_insertBefore, hi, Prod.mk.injEq] at hinsert
  obtain ⟨-, hbase⟩ := hinsert
  rw [hi, hbase, hsize] at hnew
  have hbasewf : base.WellFormed := hbase ▸ hwf.insertAt_none i _
  have hcorewalk : core ∈ p.walk := Forest.mem_preorder_of_below? hcore
  have hcorebase : core ∈ base.walk := by
    rw [← hbase, Program.mem_walk_insertAt_none, Program.walk, hbody]
    exact .inr hcorewalk
  obtain ⟨inside, hinside, hbelow⟩ := Program.exists_below hcorebase
  rw [get_bind_ok] at h
  obtain ⟨_, u, hmoves, h⟩ := bind_ok.1 h
  obtain rfl : u.erase core = q := by simpa using h
  -- What is moved is below the core, and the core is not at the top, so that the list stays.
  have hu : u.body.roots = base.body.roots := by
    refine forM_induction (I := fun u => u.body.roots = base.body.roots) hmoves rfl
      fun child hchild u v hu hstep => ?_
    have hin := Program.mem_walkIn_of_mem_children hchild
    rw [Program.walkIn, hbelow] at hin
    have hnot := hbasewf.distinct.notMem_roots_of_below hinside hin
    obtain rfl : u.moveTo child (some function) = v := by simpa using hstep
    rw [Program.body_moveTo, Forest.roots_update, Forest.roots_remove_of_notMem (hu ▸ hnot), hu]
  have hlast : core ∉ u.body.roots := by
    rw [hu, hnew, List.mem_append, List.mem_cons]
    rw [hroots, List.mem_append] at hinner
    rintro (hmem | rfl | hmem)
    · exact hinner (.inl hmem)
    · exact Nat.lt_irrefl _ (hp.created _ hcorewalk)
    · exact hinner (.inr hmem)
  rw [Program.body_erase, Forest.roots_remove_of_notMem hlast, hu, hnew]

/-! ### The functions of the cores -/

/-- The functions with a body among some operations, of those that have been created since a program
had a number of them. -/
def Program.bodiesSince (p : Program) (n : Nat) (l : List OpId) : List Operation :=
  ((l.filter fun id => (p.op id).unitKind? = some .definition).filter fun id => n ≤ id).map p.op

section Bodies

variable {n : Nat} {l : List OpId}

/-- New definitions of two lists of operations are those of the one, then of the other. -/
theorem Program.bodiesSince_append (p : Program) (n : Nat) (l l' : List OpId) :
    p.bodiesSince n (l ++ l') = p.bodiesSince n l ++ p.bodiesSince n l' := by
  simp only [bodiesSince, List.filter_append, List.map_append]

/-- New definitions depend on the operations of the list only. -/
theorem Program.bodiesSince_congr (h : ∀ id ∈ l, q.op id = p.op id) :
    q.bodiesSince n l = p.bodiesSince n l := by
  have hfilter : (l.filter fun id => (q.op id).unitKind? = some .definition) =
      l.filter fun id => (p.op id).unitKind? = some .definition :=
    List.filter_congr fun id hid => by rw [h id hid]
  rw [bodiesSince, hfilter, bodiesSince]
  exact List.map_congr_left fun id hid => h id (List.mem_filter.1 (List.mem_filter.1 hid).1).1

/-- Operations that were there before are no new ones. -/
theorem Program.bodiesSince_of_lt (h : ∀ id ∈ l, id < n) : p.bodiesSince n l = [] := by
  rw [bodiesSince, List.map_eq_nil_iff, List.filter_eq_nil_iff]
  intro id hid
  rw [decide_eq_true_eq]
  exact Nat.not_le_of_lt (h id (List.mem_filter.1 hid).1)

/-- The new definitions of one new operation. -/
theorem Program.bodiesSince_singleton {id : OpId} (h : n ≤ id) :
    p.bodiesSince n [id] = if (p.op id).unitKind? = some .definition then [p.op id] else [] := by
  rw [bodiesSince, List.filter_cons, List.filter_nil]
  by_cases hkind : (p.op id).unitKind? = some .definition
  · rw [if_pos (decide_eq_true hkind), if_pos hkind, List.filter_cons, if_pos (decide_eq_true h)]
    rfl
  · rw [if_neg (by simpa using hkind), if_neg hkind]
    rfl

end Bodies

/-- What is at the top of a program before some operations: of what is new there, the functions with
a body are those of a list. -/
def Program.Lists (n : Nat) (later : List OpId) (functions : List Operation) (r : Program) : Prop :=
  ∃ before, r.body.roots = before ++ later ∧ r.bodiesSince n before = functions

section Lists

variable {n : Nat} {device : OpId} {later skipped : List OpId} {functions : List Operation}

/-- Operations that are not new count for nothing. -/
theorem Program.Lists.skip (h : r.Lists n (skipped ++ later) functions)
    (hold : ∀ id ∈ skipped, id < n) : r.Lists n later functions := by
  obtain ⟨before, hroots, hfunctions⟩ := h
  refine ⟨before ++ skipped, by rw [hroots, List.append_assoc], ?_⟩
  rw [Program.bodiesSince_append, Program.bodiesSince_of_lt hold, List.append_nil, hfunctions]

/-- One more operation comes before the ones that are still to come. -/
theorem Program.Lists.grow (h : r.Lists n (device :: later) functions) (hn : n ≤ r.slots.size)
    (hroots : ∀ before, r.body.roots = before ++ device :: later →
      s.body.roots = before ++ r.slots.size :: device :: later)
    (hkept : ∀ id ∈ r.body.roots, s.op id = r.op id) {op : Operation}
    (hop : s.op r.slots.size = op) :
    s.Lists n (device :: later) (functions ++
      if op.unitKind? = some .definition then [op] else []) := by
  obtain ⟨before, hbefore, hfunctions⟩ := h
  refine ⟨before ++ [r.slots.size], by rw [hroots before hbefore]; simp, ?_⟩
  have hsame : ∀ id ∈ before, s.op id = r.op id := fun id hid =>
    hkept id (hbefore ▸ List.mem_append_left _ hid)
  rw [Program.bodiesSince_append, Program.bodiesSince_congr hsame, hfunctions,
    Program.bodiesSince_singleton hn, hop]

/-- An operation without a body comes before a device. -/
theorem Program.Lists.insertBefore (h : r.Lists n (device :: later) functions) (hr : r.WellFormed)
    (hn : n ≤ r.slots.size) {op : Operation} (hop : op.unitKind? ≠ some .definition) :
    (r.insertBefore device op).2.Lists n (device :: later) functions := by
  obtain ⟨before, hbefore, -⟩ := id h
  have hdevice : device ∈ r.body.roots := by
    rw [hbefore]
    exact List.mem_append_right _ List.mem_cons_self
  obtain ⟨i, hi⟩ := Program.insertBefore_of_mem_roots hr hdevice op
  have hnew : (r.insertBefore device op).2.op r.slots.size = op := by
    rw [hi, Program.op, Program.slot_insertAt_new]
    rfl
  have := h.grow hn (fun before hbefore => Program.roots_insertBefore hr hbefore op)
    (fun id hid => by
      rw [hi]
      exact Program.op_congr (Program.slot_insertAt_none
        (hr.created id (Program.mem_walk_of_mem_roots hid)) i op)) hnew
  rwa [if_neg hop, List.append_nil] at this

/-- The device that stands next goes away. -/
theorem Program.Lists.erase (h : r.Lists n (device :: later) functions) (hr : r.WellFormed) :
    (r.erase device).Lists n later functions := by
  obtain ⟨before, hbefore, hfunctions⟩ := h
  have hnodup := hr.distinct.nodup_roots
  rw [hbefore, List.perm_middle.nodup_iff, List.nodup_cons, List.mem_append, not_or] at hnodup
  have hkeep : ∀ l : List OpId, device ∉ l → l.filter (fun id => decide (id ≠ device)) = l :=
    fun l hl => List.filter_eq_self.2 fun id hid => by
      rw [decide_eq_true_eq]
      rintro rfl
      exact hl hid
  refine ⟨before, ?_, ?_⟩
  · rw [Program.body_erase, Forest.roots_remove hr.distinct, hbefore, List.filter_append,
      List.filter_cons, if_neg (by simp), hkeep _ hnodup.1.1, hkeep _ hnodup.1.2]
  · rw [Program.bodiesSince_congr fun id _ => Program.op_erase r device id, hfunctions]

end Lists

/-! ### One device -/

/-- The function of a tile is a definition. -/
theorem standardFunction_unitKind? (tile : Tile) :
    tile.standardFunction.unitKind? = some .definition :=
  Operation.unitKind?_of_function backendName?_function

/-- A global is put before its device, or nothing is. -/
theorem insertGlobal_inserts {device buffer : OpId} {table table' : BufferSymbols}
    (h : runOn (insertGlobal device table buffer) p = (.ok table', q)) :
    q = p ∨ ∃ op : Operation, op.result = none ∧ op.unitKind? = some .global ∧
      q = (p.insertBefore device op).2 := by
  rw [insertGlobal, get_bind_ok] at h
  dsimp only at h
  split at h
  · obtain ⟨_, u, hinsert, h⟩ := bind_ok.1 h
    rw [runOn_insertBefore, Prod.mk.injEq] at hinsert
    obtain ⟨-, rfl⟩ := hinsert
    obtain ⟨-, rfl⟩ := pure_ok.1 h
    refine .inr ⟨_, rfl, Operation.unitKind?_of_global ?_, rfl⟩
    exact backendName?_global
  · exact .inl (pure_ok.1 h).2.symm

/-- The declaration of an intrinsic is put before its device, or nothing is. -/
theorem declareIntrinsic_inserts {device : OpId} {declared declared' : List String}
    {intrinsic : String}
    (h : runOn (declareIntrinsic device declared intrinsic) p = (.ok declared', q)) :
    q = p ∨ q = (p.insertBefore device (intrinsicDeclaration intrinsic)).2 := by
  rw [declareIntrinsic] at h
  split at h
  · exact .inl (pure_ok.1 h).2.symm
  · obtain ⟨_, u, hinsert, h⟩ := bind_ok.1 h
    rw [runOn_insertBefore, Prod.mk.injEq] at hinsert
    obtain ⟨-, rfl⟩ := hinsert
    exact .inr (pure_ok.1 h).2.symm

section Device

variable {n : Nat} {device : OpId} {later rest : List OpId} {functions : List Operation}
  {table : BufferSymbols}

/-- A program that is about to lose a device, with what is at the top before it. -/
structure Program.Opened (p : Program) (n : Nat) (device : OpId) (later l : List OpId)
    (functions : List Operation) (r : Program) : Prop where
  leaves : p.Leaves l r
  lists : r.Lists n (device :: later) functions

/-- The device still to be lowered is at the top. -/
theorem Program.Lists.mem_roots (h : r.Lists n (device :: later) functions) :
    device ∈ r.body.roots := by
  obtain ⟨before, hbefore, -⟩ := h
  rw [hbefore]
  exact List.mem_append_right _ List.mem_cons_self

/-- An operation without a result and without a body comes before the device. -/
theorem Program.Opened.insertBefore {l : List OpId} (h : p.Opened n device later l functions r)
    (hn : n ≤ p.slots.size) {op : Operation} (hresult : op.result = none)
    (hop : op.unitKind? ≠ some .definition) :
    p.Opened n device later l functions (r.insertBefore device op).2 := by
  have hr := h.leaves.wellFormed
  refine ⟨?_, h.lists.insertBefore hr (Nat.le_trans hn h.leaves.size) hop⟩
  have := h.leaves.trans (insertBefore_leaves hr h.lists.mem_roots hresult)
  rwa [List.append_nil] at this

/-- The cores of a device become functions in their order, be they inside each other or not. -/
theorem Program.Draining.lists (h : p.Draining device rest r)
    (hlists : r.Lists n (device :: later) functions) (hp : p.WellFormed) (hn : n ≤ p.slots.size)
    (hvalues : p.definedValues.Nodup) (hdevice : device ∈ p.body.roots)
    (hcores : ∀ core ∈ rest, core ∈ p.walkIn device) (hnodup : rest.Nodup)
    (hrun : runOn (rest.forM (lowerCore device table)) r = (.ok (), s)) :
    p.Opened n device later [device] (functions ++ rest.filterMap p.function?) s ∧
      ∀ core ∈ rest, (p.owningTile? core).isSome = true := by
  induction rest generalizing functions r with
  | nil =>
      obtain rfl := forM_nil_ok.1 hrun
      rw [List.filterMap_nil, List.append_nil]
      exact ⟨⟨h.leaves, hlists⟩, fun _ hcore => absurd hcore List.not_mem_nil⟩
  | cons core rest ih =>
      obtain ⟨u, hcore, hrun⟩ := forM_cons_ok.1 hrun
      obtain ⟨hfresh, hnodup⟩ := List.nodup_cons.1 hnodup
      obtain ⟨tile, code, htile, hbelow, hinner, hout, hdraining⟩ :=
        h.step hp hvalues hdevice (hcores core List.mem_cons_self) hfresh hcore
      have hr := h.leaves.wellFormed
      have hgrown := hlists.grow (Nat.le_trans hn h.leaves.size)
        (fun before hbefore => lowerCore_roots hr hbefore hbelow hinner hcore)
        (fun id hid => hout.kept id (hr.created id (Program.mem_walk_of_mem_roots hid))
          fun hmem => hr.distinct.notMem_roots_of_below hbelow hmem hid) hout.created
      rw [if_pos (standardFunction_unitKind? tile)] at hgrown
      obtain ⟨hopened, hplaced⟩ := ih hdraining hgrown
        (fun c hc => hcores c (List.mem_cons_of_mem _ hc)) hnodup hrun
      have hfunction : p.function? core = some tile.standardFunction := by
        rw [Program.function?, htile, Option.map_some]
      refine ⟨?_, fun c hc => ?_⟩
      · rwa [List.filterMap_cons_some hfunction, List.append_cons]
      · rcases List.mem_cons.1 hc with rfl | hc
        · rw [htile]
          rfl
        · exact hplaced c hc

/-- A device is replaced by the functions of its cores, in their order, besides what has no body. -/
theorem lowerDevice_lists (hp : p.WellFormed) (hvalues : p.definedValues.Nodup)
    (hn : n ≤ p.slots.size) {declared declared' : List String}
    (hlists : p.Lists n (device :: later) functions)
    (h : runOn (lowerDevice declared device) p = (.ok declared', q)) :
    p.Leaves [device] q ∧ q.Lists n later (functions ++ p.functionsOf device) ∧
      ∀ core ∈ p.findIn device "aie.core", (p.owningTile? core).isSome = true := by
  have hdevice := hlists.mem_roots
  have hwalk := Program.mem_walk_of_mem_roots hdevice
  obtain ⟨contents, hcontents⟩ := Forest.mem_roots.1 hdevice
  rw [lowerDevice, get_bind_ok] at h
  obtain ⟨table, r, hglobals, h⟩ := bind_ok.1 h
  have hr : p.Opened n device later [] functions r := by
    refine foldlM_induction hglobals ⟨.refl hp, hlists⟩ fun _ _ _ _ u v hu hstep => ?_
    obtain rfl | ⟨op, hresult, hkind, rfl⟩ := insertGlobal_inserts hstep
    · exact hu
    · exact hu.insertBefore hn hresult (by rw [hkind]; decide)
  rw [get_bind_ok, hr.leaves.findIn hp hcontents List.not_mem_nil (.inl rfl)] at h
  obtain ⟨_, s, hcores, h⟩ := bind_ok.1 h
  obtain ⟨hs, hplaced⟩ := (Program.Draining.start hp hr.leaves hdevice).lists hr.lists hp hn hvalues
    hdevice (fun core hcore => (List.mem_filter.1 hcore).1) (hp.nodup_findIn hwalk _) hcores
  obtain ⟨_, t, hdeclare, h⟩ := bind_ok.1 h
  have ht : p.Opened n device later [device] (functions ++ p.functionsOf device) t := by
    refine foldlM_induction hdeclare hs fun intrinsic _ _ _ u v hu hstep => ?_
    obtain rfl | rfl := declareIntrinsic_inserts hstep
    · exact hu
    · refine hu.insertBefore hn rfl ?_
      rw [Operation.unitKind?_of_isDeclaration rfl]
      decide
  obtain ⟨_, u, herase, h⟩ := bind_ok.1 h
  rw [runOn_erase, Prod.mk.injEq] at herase
  obtain ⟨-, rfl⟩ := herase
  obtain ⟨-, rfl⟩ := pure_ok.1 h
  have ht' := ht.leaves.wellFormed
  refine ⟨?_, ht.lists.erase ht', hplaced⟩
  exact (ht.leaves.trans (erase_leaves ht' ht.lists.mem_roots)).mono (by simp)

end Device

/-! ### All devices -/

/-- The devices that are still to come are replaced by the functions of their cores, in their
order. -/
theorem lowerDevices_lists (hp : p.WellFormed) (hvalues : p.definedValues.Nodup) {n : Nat}
    (hn : n ≤ p.slots.size) {devices done later : List OpId} {functions : List Operation}
    {declared declared' : List String} (hr : p.Leaves done r)
    (hlists : r.Lists n later functions)
    (hlater : ∀ id ∈ later, id ∈ p.body.roots ∧ id < n ∧ id ∉ done) (hnodup : later.Nodup)
    (hdevices : later.filter (fun id => (p.op id).is "aie.device") = devices)
    (h : runOn (devices.foldlM lowerDevice declared) r = (.ok declared', q)) :
    q.WellFormed ∧ q.Lists n [] (functions ++ devices.flatMap p.functionsOf) := by
  induction devices generalizing done later functions declared r with
  | nil =>
      obtain ⟨-, rfl⟩ := foldlM_nil_ok.1 h
      refine ⟨hr.wellFormed, ?_⟩
      rw [← List.append_nil later] at hlists
      rw [List.flatMap_nil, List.append_nil]
      exact hlists.skip fun id hid => (hlater id hid).2.1
  | cons device devices ih =>
      obtain ⟨_, s, hdevice, h⟩ := foldlM_cons_ok.1 h
      obtain ⟨skipped, rest, rfl, -, -, hrest⟩ := List.filter_eq_cons_iff.1 hdevices
      obtain ⟨hroot, -, hfresh⟩ := hlater device (List.mem_append_right _ List.mem_cons_self)
      obtain ⟨-, hnodup, -⟩ := List.nodup_append.1 hnodup
      obtain ⟨hnot, hnodup⟩ := List.nodup_cons.1 hnodup
      have hnext := hlists.skip fun id hid => (hlater id (List.mem_append_left _ hid)).2.1
      obtain ⟨hs, hslists, hplaced⟩ := lowerDevice_lists hr.wellFormed
        (hr.resolves.nodup hvalues hr.wellFormed) (Nat.le_trans hn hr.size) hnext hdevice
      obtain ⟨-, hfunctions, -⟩ := hr.units hp hvalues hroot hfresh hplaced
      rw [hfunctions] at hslists
      rw [List.flatMap_cons, ← List.append_assoc]
      refine ih (hr.trans hs) hslists (fun id hid => ?_) hnodup hrest h
      obtain ⟨hidroot, hidn, hiddone⟩ :=
        hlater id (List.mem_append_right _ (List.mem_cons_of_mem _ hid))
      refine ⟨hidroot, hidn, ?_⟩
      rw [List.mem_append, List.mem_singleton, not_or]
      refine ⟨hiddone, ?_⟩
      rintro rfl
      exact hnot hid

/-- The functions that come to the top for the cores stand there in the order of the cores. -/
theorem lowerCores_lists (hp : p.WellFormed) (hvalues : p.definedValues.Nodup)
    (h : runOn lowerCores p = (.ok (), q)) :
    q.WellFormed ∧ (p.newDefinitions q).map q.op = p.deviceCores.filterMap p.function? := by
  rw [lowerCores, get_bind_ok] at h
  obtain ⟨declared, r, hloop, h⟩ := bind_ok.1 h
  obtain ⟨-, rfl⟩ := pure_ok.1 h
  have hcreated : ∀ id ∈ p.body.roots, id < p.slots.size := fun id hid =>
    hp.created id (Program.mem_walk_of_mem_roots hid)
  have hstart : p.Lists p.slots.size p.body.roots [] := ⟨[], rfl, rfl⟩
  obtain ⟨hwf, before, hbefore, hfunctions⟩ := lowerDevices_lists hp hvalues (Nat.le_refl _)
    (.refl hp) hstart (fun id hid => ⟨hid, hcreated id hid, List.not_mem_nil⟩)
    hp.distinct.nodup_roots rfl hloop
  rw [List.append_nil] at hbefore
  rw [List.nil_append, ← hbefore] at hfunctions
  refine ⟨hwf, hfunctions.trans ?_⟩
  rw [Program.deviceCores, List.filterMap_flatMap]
  rfl


/-! ### The stages after the lowering of the cores -/

/-- A program that has lost some operations, but no function with a body at the top. -/
structure Program.Trims (p q : Program) : Prop where
  wellFormed : q.WellFormed
  op : ∀ id, q.op id = p.op id
  definitions : q.definitions = p.definitions

/-- Trimming may drop nothing. -/
theorem Program.Trims.refl (hp : p.WellFormed) : p.Trims p :=
  ⟨hp, fun _ => rfl, rfl⟩

/-- One more operation is lost, which is no function with a body. -/
theorem Program.Trims.erase (h : p.Trims r) {id : OpId}
    (hkind : (p.op id).unitKind? ≠ some .definition) : p.Trims (r.erase id) := by
  refine ⟨h.wellFormed.erase id, fun j => by rw [Program.op_erase, h.op], ?_⟩
  rw [← h.definitions, Program.definitions, Program.body_erase, Forest.roots_remove
    h.wellFormed.distinct, List.filter_filter, Program.definitions]
  refine List.filter_congr fun j _ => ?_
  rw [Program.op_erase, h.op, Bool.and_eq_left_iff_imp, decide_eq_true_eq, decide_eq_true_eq]
  rintro hj rfl
  exact hkind hj

/-- Dropping the runtime sequence trims. -/
theorem dropRuntime_trims (hp : p.WellFormed) (h : runOn dropRuntime p = (.ok (), q)) :
    p.Trims q := by
  rw [dropRuntime, get_bind_ok] at h
  refine forM_induction (I := p.Trims) h (.refl hp) fun id _ r s hr hstep => ?_
  rw [get_bind_ok] at hstep
  split at hstep
  · rename_i hdialect
    rw [hr.op] at hdialect
    obtain rfl := eraseLive_ok.1 hstep
    split
    · refine hr.erase ?_
      rw [Operation.unitKind?_of_dialect (by rw [hdialect]; decide)]
      exact Option.some_ne_none _ ∘ Eq.symm
    · exact hr
  · obtain rfl : r = s := by simpa using hstep
    exact hr

/-- What is lost at the top is no function with a body. -/
theorem Program.PrunedTop.trims {P : OpId → Bool} (h : r.PrunedTop P q) (hr : p.Trims r)
    (hP : ∀ id, P id = true → (p.op id).unitKind? ≠ some .definition) : p.Trims q where
  wellFormed := h.wellFormed hr.wellFormed
  op id := (h.op id).trans (hr.op id)
  definitions := by
    rw [← hr.definitions, Program.definitions, h.roots, List.filter_filter, Program.definitions]
    refine List.filter_congr fun id _ => ?_
    rw [h.op, hr.op, Bool.and_eq_left_iff_imp, decide_eq_true_eq, Bool.not_eq_true']
    exact fun hkind => Bool.eq_false_iff.2 fun hlost => hP id hlost hkind

/-- Dropping what is unused trims. -/
theorem dropUnused_trims (hp : p.WellFormed) (h : runOn dropUnused p = (.ok (), q)) :
    p.Trims q := by
  obtain ⟨r, hterminators, hq⟩ := dropUnused_ok h
  have hr : p.Trims r := by
    refine forM_induction (I := p.Trims) hterminators (.refl hp) fun id _ r s hr hstep => ?_
    obtain rfl := dropTerminator_ok hstep
    split
    · rename_i hterminator
      rw [Bool.and_eq_true, hr.op] at hterminator
      refine hr.erase ?_
      rw [Operation.unitKind?_of_isTerminator hterminator.1]
      exact Option.some_ne_none _ ∘ Eq.symm
    · exact hr
  refine (hq hr.wellFormed).trims hr fun id hunused => ?_
  rw [hr.op, Operation.isUnused, Bool.and_eq_true, Bool.and_eq_true] at hunused
  rw [Operation.unitKind?_of_isDeclaration hunused.1.1]
  decide

/-- Merging equal operations trims. -/
theorem mergeEqual_trims (hp : p.WellFormed) (h : runOn mergeEqual p = (.ok (), q)) :
    p.Trims q :=
  (mergeEqual_ok hp h).trims (.refl hp) fun _ hcopy =>
    Operation.unitKind?_of_isMergeable (Program.isCopy_iff.1 hcopy).1

/-- A program with the functions with a body of another one, and their symbols. -/
structure Program.KeepsDefinitions (p q : Program) : Prop where
  wellFormed : q.WellFormed
  definitions : q.definitions = p.definitions
  symbol : ∀ f ∈ p.definitions, (q.op f).operandSymbol? 0 = (p.op f).operandSymbol? 0

/-- Keeping the definitions is transitive. -/
theorem Program.KeepsDefinitions.trans (h : p.KeepsDefinitions q) (h' : q.KeepsDefinitions r) :
    p.KeepsDefinitions r :=
  ⟨h'.wellFormed, h'.definitions.trans h.definitions, fun f hf =>
    (h'.symbol f (h.definitions ▸ hf)).trans (h.symbol f hf)⟩

/-- Trimming keeps the definitions. -/
theorem Program.Trims.keepsDefinitions (h : p.Trims q) : p.KeepsDefinitions q :=
  ⟨h.wellFormed, h.definitions, fun f _ => by rw [h.op]⟩

/-- Names for the backend leave functions what they are. -/
theorem lowerNames_keepsDefinitions (hp : p.WellFormed) (h : runOn lowerNames p = (.ok (), q)) :
    p.KeepsDefinitions q := by
  obtain ⟨-, -, hq, -, -⟩ := lowerNames_keeps hp h
  obtain ⟨hroots, htop⟩ := lowerNames_top hp h
  refine ⟨hq, ?_, fun f hf => ?_⟩
  · rw [Program.definitions, hroots, Program.definitions]
    refine List.filter_congr fun id hid => ?_
    obtain ⟨name, hname, hop⟩ := htop id hid
    rw [hop, Operation.unitKind?_rename hname]
  · obtain ⟨name, -, hop⟩ := htop f (List.mem_filter.1 hf).1
    rw [hop]
    rfl

/-- The stages after the lowering of the cores keep the functions with a body. -/
theorem finish_keepsDefinitions (hp : p.WellFormed)
    (h : Pipeline.runStages [.dropRuntime, .dropUnused, .mergeEqual, .lowerNames, .dropUnused,
      .mergeEqual] p = (.ok (), q)) : p.KeepsDefinitions q := by
  simp only [Pipeline.runStages_cons_ok] at h
  obtain ⟨p₁, hruntime, p₂, hunused, p₃, hmerge, p₄, hnames, p₅, hunused', p₆, hmerge', hend⟩ := h
  obtain rfl : p₆ = q := by simpa [Pipeline.runStages] using hend
  have h₁ := (dropRuntime_trims hp hruntime).keepsDefinitions
  have h₂ := h₁.trans (dropUnused_trims h₁.wellFormed hunused).keepsDefinitions
  have h₃ := h₂.trans (mergeEqual_trims h₂.wellFormed hmerge).keepsDefinitions
  have h₄ := h₃.trans (lowerNames_keepsDefinitions h₃.wellFormed hnames)
  have h₅ := h₄.trans (dropUnused_trims h₄.wellFormed hunused').keepsDefinitions
  exact h₅.trans (mergeEqual_trims h₅.wellFormed hmerge').keepsDefinitions

/-! ### The entry points -/

/-- The cores of the devices at the top are all cores, in program order, if each of them is in
one. -/
theorem Program.deviceCores_eq (hp : p.WellFormed) (hinside : ∀ core ∈ p.findAll "aie.core",
    ∃ device ∈ p.devices, core ∈ p.walkIn device) : p.deviceCores = p.findAll "aie.core" := by
  have htree : ∀ t ∈ p.body.trees,
      (if (p.op t.1).is "aie.device" then p.findIn t.1 "aie.core" else []) =
        (t.1 :: t.2.preorder).filter fun id => (p.op id).is "aie.core" := by
    intro t ht
    split
    · rename_i hdevice
      have hroot : (p.op t.1).is "aie.core" = false :=
        Operation.not_is_of_is hdevice (by decide)
      rw [Program.findIn, Program.walkIn,
        Program.below_of_below? (Forest.below?_of_mem_trees hp.distinct ht),
          List.filter_cons, hroot]
      rfl
    · rename_i hother
      refine (List.filter_eq_nil_iff.2 fun id hid hcore => ?_).symm
      have hwalk : id ∈ p.walk := Forest.mem_preorder_iff_trees.2 ⟨t, ht, List.mem_cons.1 hid⟩
      obtain ⟨device, hdevice, hin⟩ := hinside id (List.mem_filter.2 ⟨hwalk, hcore⟩)
      obtain ⟨hroot, hname⟩ := List.mem_filter.1 hdevice
      obtain ⟨inside, htree⟩ := Forest.mem_roots.1 hroot
      rw [Program.walkIn,
        Program.below_of_below? (Forest.below?_of_mem_trees hp.distinct htree)] at hin
      rcases List.mem_cons.1 hid with rfl | hid
      · exact hp.distinct.root_not_below htree (Forest.mem_roots.2 ⟨_, ht⟩) hin
      · refine hp.distinct.trees_disjoint htree ht ?_ hin hid
        rintro rfl
        exact hother hname
  have hfilter : ∀ l : List (OpId × Forest OpId),
      ((l.map (·.1)).filter fun id => (p.op id).is "aie.device").flatMap
        (fun device => p.findIn device "aie.core") =
      l.flatMap fun t => if (p.op t.1).is "aie.device" then p.findIn t.1 "aie.core" else [] := by
    intro l
    induction l with
    | nil => rfl
    | cons t l ih =>
        rw [List.map_cons, List.filter_cons, List.flatMap_cons, ← ih]
        split <;> rfl
  rw [Program.deviceCores, Program.devices, Forest.roots_eq, hfilter, Program.findAll, Program.walk,
    Forest.preorder_eq_flatMap, List.filter_flatMap, List.flatMap_congr htree]

/-- The text of a program defines the functions with a body at the top, in their order. This is read
off its lines if no name breaks a line and the symbols of globals are one word each. -/
theorem Program.backendText_definitions {text : String} (h : p.backendText = .ok text) :
    ∃ s : Backend.Sections, text = s.render ∧
      (Backend.ArePlain p.contents → Backend.introducedAs .definition text = s.definedSymbols) ∧
      s.definedSymbols.map some = p.definitions.map fun f => (p.op f).operandSymbol? 0 := by
  obtain ⟨s, hs, -, hdefined, -, hplain, -⟩ := Program.backendText_sections h
  obtain ⟨units, hunits, -⟩ := Except.bind_ok_iff.1 (Program.backendText_ok h)
  have hsymbol : ∀ id ∈ p.body.roots, ∃ symbol, (p.op id).operandSymbol? 0 = some symbol :=
    fun id hid => Backend.exists_symbol_of_unitsOf hunits _ (by
      rw [Program.contents, Forest.roots_map]
      exact List.mem_map.2 ⟨id, hid, rfl⟩)
  refine ⟨s, hs, fun h => ?_, ?_⟩
  · rw [hs]
    exact (Backend.Sections.introducedAs_render (hplain h)).2.2
  rw [hdefined, Program.symbols_eq, Program.definitions]
  revert hsymbol
  generalize p.body.roots = roots
  intro hsymbol
  induction roots with
  | nil => rfl
  | cons id roots ih =>
      obtain ⟨symbol, hid⟩ := hsymbol id List.mem_cons_self
      rw [List.filterMap_cons, List.filter_cons, Operation.symbolAs?]
      have hrest := ih fun j hj => hsymbol j (List.mem_cons_of_mem _ hj)
      by_cases hkind : (p.op id).unitKind? = some .definition
      · rw [if_pos hkind, if_pos (decide_eq_true hkind), hid, List.map_cons,
          List.map_cons, hrest, hid]
      · rw [if_neg hkind, if_neg (by simpa using hkind), hrest]

/-- The functions that come to the top for the cores have the symbols that are linked, in their
order. -/
theorem unified_newDefinitions (hp : p.WellFormed) (hvalues : p.definedValues.Nodup)
    (hinside : ∀ core ∈ p.findAll "aie.core", ∃ device ∈ p.devices, core ∈ p.walkIn device)
    (h : Pipeline.unified.run p = (.ok (), q)) :
    (p.newDefinitions q).map (fun f => (q.op f).operandSymbol? 0) = p.coreSymbols.map some := by
  rw [Pipeline.run, Pipeline.unified, Pipeline.runStages_cons_ok] at h
  obtain ⟨p₁, hlocks, h⟩ := h
  rw [Pipeline.runStages_cons_ok] at h
  obtain ⟨p₂, hspaces, h⟩ := h
  rw [Pipeline.runStages_cons_ok] at h
  obtain ⟨p₃, hcores, h⟩ := h
  obtain ⟨hprep, -⟩ := prepare_ok hp hlocks hspaces
  obtain ⟨hwf, hfunctions⟩ := lowerCores_lists (hprep.wellFormed hp) (hprep.definedValues ▸ hvalues)
    hcores
  have hfinish := finish_keepsDefinitions hwf h
  have hnew : p.newDefinitions q = p₂.newDefinitions p₃ := by
    rw [Program.newDefinitions, hfinish.definitions, Program.newDefinitions, hprep.size]
  have hcoreslist : p₂.deviceCores.filterMap p₂.function? =
      ((p.findAll "aie.core").filterMap p.owningTile?).map Tile.standardFunction := by
    rw [← Program.deviceCores_eq hp hinside, Program.deviceCores, hprep.devices,
      Program.deviceCores,
      List.map_filterMap]
    simp only [hprep.findIn]
    exact List.filterMap_congr fun core _ => by rw [Program.function?, hprep.owningTile?]
  calc (p.newDefinitions q).map (fun f => (q.op f).operandSymbol? 0)
      = (p₂.newDefinitions p₃).map fun f => (p₃.op f).operandSymbol? 0 := by
        rw [hnew]
        exact List.map_congr_left fun f hf => hfinish.symbol f (List.mem_filter.1 hf).1
    _ = ((p₂.newDefinitions p₃).map p₃.op).map (·.operandSymbol? 0) := by
        rw [List.map_map]
        rfl
    _ = (((p.findAll "aie.core").filterMap p.owningTile?).map Tile.standardFunction).map
          (·.operandSymbol? 0) := by rw [hfunctions, hcoreslist]
    _ = p.coreSymbols.map some := by
        rw [Program.coreSymbols, List.map_map, List.map_map]
        rfl

/-- Every entry point of a program is defined: the functions that come to the top for its cores have
the symbols that are linked, in their order, and the text has a definition for each function with a
body at the top, in program order, and so for each entry point, in the order in which they are
linked. The lines of the text show these definitions and no other ones, if no name in the lowered
program breaks a line and the symbols of its globals are one word each. -/
theorem unified_defines_entryPoints (hp : p.WellFormed) (hvalues : p.definedValues.Nodup)
    (hinside : ∀ core ∈ p.findAll "aie.core", ∃ device ∈ p.devices, core ∈ p.walkIn device)
    (h : Pipeline.unified.run p = (.ok (), q)) {text : String} (htext : q.backendText = .ok text) :
    (p.newDefinitions q).map (fun f => (q.op f).operandSymbol? 0) = p.coreSymbols.map some ∧
      ∃ s : Backend.Sections, text = s.render ∧
        s.definedSymbols.map some = q.definitions.map (fun f => (q.op f).operandSymbol? 0) ∧
        p.coreSymbols.Sublist s.definedSymbols ∧
        (Backend.ArePlain q.contents →
          Backend.introducedAs .definition text = s.definedSymbols) := by
  have hnew := unified_newDefinitions hp hvalues hinside h
  obtain ⟨s, hs, hread, hdefined⟩ := Program.backendText_definitions htext
  refine ⟨hnew, s, hs, hdefined, ?_, hread⟩
  have hsublist : ((p.newDefinitions q).map fun f => (q.op f).operandSymbol? 0).Sublist
      (q.definitions.map fun f => (q.op f).operandSymbol? 0) :=
    List.filter_sublist.map _
  rw [hnew, ← hdefined] at hsublist
  simpa using hsublist.filterMap id

/-- A function, and a device with two cores. -/
def twoCores : Forest Operation :=
  .cons { name := "func.func", operands := [.symbol "boot"], hasRegion := true } .nil <|
  .single { name := "aie.device", operands := [.ident "ipu"], hasRegion := true } <|
    .cons { name := "aie.tile", result := some "t", operands := [.int 0, .int 2] } .nil <|
    .cons { name := "aie.tile", result := some "u", operands := [.int 0, .int 3] } .nil <|
    .cons { name := "aie.core", operands := [.value "u"], hasRegion := true } .nil <|
    .single { name := "aie.core", operands := [.value "t"], hasRegion := true } .nil

/-- Both cores of the device are defined after the function. -/
theorem unified_defines_entryPoints_twoCores : ∃ q text,
    Pipeline.unified.run (.ofForest .empty twoCores) = (.ok (), q) ∧ q.backendText = .ok text ∧
    ((Program.ofForest .empty twoCores).newDefinitions q).map
      (fun f => (q.op f).operandSymbol? 0) = [some "core_0_3", some "core_0_2"] ∧
    (∃ s : Backend.Sections, text = s.render ∧
      s.definedSymbols = ["boot", "core_0_3", "core_0_2"]) ∧
    Backend.introducedAs .definition text = ["boot", "core_0_3", "core_0_2"] := by
  have hok : (Pipeline.unified.run (.ofForest .empty twoCores)).1.toOption = some () ∧
      (Pipeline.unified.run (.ofForest .empty twoCores)).2.definitions.map (fun f =>
        ((Pipeline.unified.run (.ofForest .empty twoCores)).2.op f).operandSymbol? 0) =
          [some "boot", some "core_0_3", some "core_0_2"] ∧
      Backend.ArePlain (Pipeline.unified.run (.ofForest .empty twoCores)).2.contents ∧
      (Pipeline.unified.run (.ofForest .empty twoCores)).2.backendText.toOption.any
        (fun _ => decide True) = true := by
    decide +kernel
  obtain ⟨hrun, hdefinitions, hplain, htext⟩ := hok
  obtain ⟨text, htext, -⟩ := exists_ok_of_any htext
  have hrun := Pipeline.run_eq_ok hrun
  obtain ⟨hnew, s, hs, hdefined, -, hread⟩ := unified_defines_entryPoints
    (Program.wellFormed_ofForest _ _) (by decide +kernel) (by decide +kernel) hrun htext
  have hsymbols : (Program.ofForest .empty twoCores).coreSymbols = ["core_0_3", "core_0_2"] := by
    decide +kernel
  rw [hsymbols] at hnew
  rw [hdefinitions] at hdefined
  have hdefined : s.definedSymbols = ["boot", "core_0_3", "core_0_2"] :=
    List.map_injective_iff.2 (fun _ _ h => Option.some.inj h) hdefined
  exact ⟨_, text, hrun, htext, hnew, ⟨s, hs, hdefined⟩, (hread hplain).trans hdefined⟩

/-- A device that is not at the top is dropped with its cores, so that nothing defines the entry
point of its core. -/
theorem unified_misses_entryPoint : ∃ p q text, p.WellFormed ∧ p.definedValues.Nodup ∧
    (∀ core ∈ p.findAll "aie.core", ∃ device ∈ p.findAll "aie.device", core ∈ p.walkIn device) ∧
    Pipeline.unified.run p = (.ok (), q) ∧ q.backendText = .ok text ∧
    p.coreSymbols = ["core_0_2"] ∧ p.newDefinitions q = [] ∧
    Backend.introducedAs .definition text = [] := by
  have hok : (Pipeline.unified.run (.ofForest .empty (.single
        { name := "aiex.part", hasRegion := true } (loopDevice (.int 1))))).1.toOption = some () ∧
      (Pipeline.unified.run (.ofForest .empty (.single
        { name := "aiex.part", hasRegion := true } (loopDevice (.int 1))))).2.definitions = [] ∧
      Backend.ArePlain (Pipeline.unified.run (.ofForest .empty (.single
        { name := "aiex.part", hasRegion := true } (loopDevice (.int 1))))).2.contents ∧
      (Pipeline.unified.run (.ofForest .empty (.single
        { name := "aiex.part", hasRegion := true }
          (loopDevice (.int 1))))).2.backendText.toOption.any
        (fun _ => decide True) = true := by
    decide +kernel
  obtain ⟨hrun, hdefinitions, hplain, htext⟩ := hok
  obtain ⟨text, htext, -⟩ := exists_ok_of_any htext
  obtain ⟨s, -, hread, hdefined⟩ := Program.backendText_definitions htext
  rw [hdefinitions] at hdefined
  refine ⟨_, _, text, Program.wellFormed_ofForest _ _, by decide +kernel, by decide +kernel,
    Pipeline.run_eq_ok hrun, htext, by decide +kernel, ?_,
    (hread hplain).trans (List.map_eq_nil_iff.1 hdefined)⟩
  rw [Program.newDefinitions, hdefinitions]
  rfl

end TileFlow
