import TileFlow.Core.BackendName
import TileFlow.Core.Function
import TileFlow.Proofs.Core.Cleanup
import TileFlow.Proofs.Device.Placement
import TileFlow.Proofs.Memory.Annotation

/-!
# Functions for cores

What the backend is to run for a core, told from the program before the lowering as one function
on trees: terminators and runtime operations are dropped, lock uses are calls of intrinsics with
the identifier of their lock, buffers are named by their symbols, operations have the names of the
backend, and a return stands at the end.

The stages make this function at the top: operations are lowered in place, moved one after the other
into a new function, and the core that is left empty is erased. The trees at the top other than the
one of the device stay as they are.

## Main definitions

* `Program.lockCall?`: the call that a lock use becomes.
* `Program.coreOperation?`: what an operation of a core becomes.
* `Program.coreProgram?`: what the body of a core becomes.

## Main results

* `Forest.lowered?_map`: lowering the operations of a body one by one.
* `lowerCoreOp_ok`: what an operation of a core becomes.
* `outline_ok`: the operations of a core are those of a function.
* `lowerCore_ok`: the function of one core.
-/

/-! ## The program of a core -/

namespace TileFlow

/-! ### Names for the backend -/

/-- Listed names have the name that is listed for them, and names of the backend are kept. -/
theorem backendName?_of_mem : ∀ e ∈ backendNames ++ [("llvm.func", "llvm.func"),
    ("llvm.global", "llvm.global"), ("llvm.return", "llvm.return")], backendName? e.1 =
    some e.2 := by
  decide +kernel

/-- Functions have a name for the back end. -/
theorem backendName?_function : backendName? "func.func" = some "llvm.func" :=
  backendName?_of_mem ("func.func", "llvm.func") (by simp [backendNames])

/-- Globals have a name for the back end. -/
theorem backendName?_global : backendName? "memref.global" = some "llvm.global" :=
  backendName?_of_mem ("memref.global", "llvm.global") (by simp [backendNames])

/-- Terminators and what is placed on the array have no name for the backend. -/
theorem backendName?_eq_none :
    ∀ name ∈ ["aie.device", "aie.buffer", "aie.end", "scf.yield"], backendName? name = none := by
  decide +kernel

/-! ### Operations of cores -/

/-- Whether the lowering drops an operation of a core, with all below it. -/
def Operation.isDropped (op : Operation) : Bool :=
  op.dialect == "aiex" || op.isTerminator

/-- The intrinsic for what a lock use does. -/
def lockIntrinsic? (intrinsics : String × String) (action : String) : Option String :=
  if action = "acquire" ∨ action = "acquire_ge" then some intrinsics.1
  else if action = "release" then some intrinsics.2
  else none

/-- An operand with a symbol in place of a value that stands for one. -/
def Attribute.substitute (symbol? : String → Option String) : Attribute → Attribute
  | .value v => ((symbol? v).map .symbol).getD (.value v)
  | other => other

namespace Program

/-- The symbol of the buffer of a device that a value stands for. -/
def bufferSymbol? (p : Program) (device : OpId) (value : String) : Option String :=
  ((p.findIn device "aie.buffer").find? fun id => (p.op id).result == some value).bind fun id =>
    (p.op id).symbolName?

/-- The call that a lock use becomes: of the intrinsic of the device, with the identifier of the
lock that it names and its integer value, which is zero if it gives none. -/
def lockCall? (p : Program) (device : OpId) (use : Operation) : Option Operation :=
  match p.namedLockId? use,
    lockIntrinsic? (p.modelOf device).lockIntrinsics ((use.operandText? 1).getD "acquire") with
  | some id, some intrinsic =>
    some { use with
      name := "llvm.call"
      operands := [.symbol intrinsic, .int id, .int ((use.operandInt? 2).getD 0)]
      attributes := .empty }
  | _, _ => none

/-- What an operation of a core becomes, the operations below it apart. -/
def coreOperation? (p : Program) (device : OpId) (op : Operation) : Option Operation :=
  if op.is "aie.use_lock" then p.lockCall? device op
  else
    (backendName? op.name).map fun name =>
      { op with name, operands := op.operands.map (.substitute (p.bufferSymbol? device)) }

end Program

/-- The operations that are not dropped, each in its place with `f` applied to it. -/
def Forest.lowered? (f : Operation → Option Operation) :
    Forest Operation → Option (Forest Operation)
  | .nil => some .nil
  | .cons op children rest =>
    if op.isDropped then rest.lowered? f
    else
      match f op, children.lowered? f, rest.lowered? f with
      | some op, some children, some rest => some (.cons op children rest)
      | _, _, _ => none

/-- Operations with a return at the end. -/
def Forest.terminated (body : Forest Operation) : Forest Operation :=
  if body.roots.getLast?.any (·.isReturn) then body
  else body ++ .single { name := "llvm.return" } .nil

/-- What the body of a core of a device becomes. -/
def Program.coreProgram? (p : Program) (device core : OpId) : Option (Forest Operation) :=
  (((p.below core).map p.op).lowered? (p.coreOperation? device)).map Forest.terminated

/-- The function that a core on a tile becomes. -/
def Tile.coreFunction (tile : Tile) : Operation where
  name := "llvm.func"
  operands := [.symbol tile.coreSymbol]
  hasRegion := true

/-- Lowering the operations one by one gives the lowered forest. -/
theorem Forest.lowered?_map {α : Type} {f : Operation → Option Operation} {g h : α → Operation}
    {body : Forest α}
    (hf : ∀ a ∈ (body.prune fun a => (g a).isDropped).preorder, f (g a) = some (h a)) :
    (body.map g).lowered? f = some ((body.prune fun a => (g a).isDropped).map h) := by
  induction body with
  | nil => rfl
  | cons a c r ihc ihr =>
      rw [map, lowered?, prune_cons]
      rw [prune_cons] at hf
      split
      · rename_i hdrop
        rw [if_pos hdrop] at hf
        exact ihr hf
      · rename_i hdrop
        rw [if_neg hdrop] at hf
        simp only [preorder_cons, List.mem_cons, List.mem_append] at hf
        rw [hf a (.inl rfl), ihc fun b hb => hf b (.inr (.inl hb)),
          ihr fun b hb => hf b (.inr (.inr hb)), map]

end TileFlow

/-! ## The function that is made -/

namespace TileFlow

open TileFlow.Action

variable {p q r s : Program}

/-! ### Operations of a core -/

/-- What an operation of a core becomes in its function, the identifier of its lock being the one
that it carries. -/
def StandardForm (intrinsics : String × String) (symbol? : String → Option String)
    (op op' : Operation) : Prop :=
  if op.is "aie.use_lock" = true then
    ∃ intrinsic n, lockIntrinsic? intrinsics ((op.operandText? 1).getD "acquire") = some intrinsic ∧
      (∀ m, op.intAttr? "lock_id" = some m → m = n) ∧
      op' = { op with
        name := "func.call"
        operands := [.symbol intrinsic, .int n, .int ((op.operandInt? 2).getD 0)]
        attributes := .empty }
  else op' = { op with operands := op.operands.map (.substitute symbol?) }

/-- Lowering an operand puts the symbol of a buffer in place of its value. -/
theorem lowerOperand_ok {symbols : BufferSymbols} {locals : List String} {tile : Tile}
    {a b : Attribute} (h : lowerOperand symbols locals tile a = .ok b) :
    b = a.substitute symbols.get? := by
  unfold lowerOperand at h
  split at h
  · rename_i v
    rw [Attribute.substitute]
    split at h
    · rename_i symbol hsymbol
      cases h
      rw [hsymbol]
      rfl
    · rename_i hnone
      split at h
      · cases h
        rw [hnone]
        rfl
      · cases h
  · rename_i hother
    cases h
    rw [Attribute.substitute]
    exact hother

/-- Lowering the operands one by one gives all of them lowered. -/
theorem lowerOperands_ok {symbols : BufferSymbols} {locals : List String} {tile : Tile}
    {as bs : List Attribute} (h : as.mapM (lowerOperand symbols locals tile) = .ok bs) :
    bs = as.map (.substitute symbols.get?) := by
  induction as generalizing bs with
  | nil =>
      rw [List.mapM_nil] at h
      cases h
      rfl
  | cons a as ih =>
      rw [List.mapM_cons] at h
      rcases ha : lowerOperand symbols locals tile a with e | b
      · rw [ha] at h
        cases h
      · rcases has : as.mapM (lowerOperand symbols locals tile) with e | bs'
        · rw [ha, has] at h
          cases h
        · rw [ha, has] at h
          cases h
          rw [List.map_cons, lowerOperand_ok ha, ih has]

/-- What the use of a lock is lowered to: a call of the intrinsic of its action with the lock's
identifier. -/
theorem lowerLockUse_ok {intrinsics : String × String} {use : OpId}
    (h : runOn (lowerLockUse intrinsics use) p = (.ok (), q)) :
    ∃ intrinsic n,
      lockIntrinsic? intrinsics (((p.op use).operandText? 1).getD "acquire") = some intrinsic ∧
      (∀ m, (p.op use).intAttr? "lock_id" = some m → m = n) ∧
      q = p.modify use fun op => { op with
        name := "func.call"
        operands := [.symbol intrinsic, .int n, .int (((p.op use).operandInt? 2).getD 0)]
        attributes := .empty } := by
  rw [lowerLockUse, get_bind_ok] at h
  obtain ⟨lock, -, h⟩ := orFail_bind_ok.1 h
  obtain ⟨n, hn, h⟩ := orFail_bind_ok.1 h
  have hid : ∀ m, (p.op use).intAttr? "lock_id" = some m → m = n := fun m hm => by
    rw [hm, Option.some_or] at hn
    exact Option.some.inj hn
  dsimp only at h
  rw [lockIntrinsic?]
  split at h
  · rename_i hacquire
    rw [pure_bind] at h
    exact ⟨_, n, if_pos hacquire, hid, by simpa [eq_comm] using h⟩
  · rename_i hacquire
    split at h
    · rename_i hrelease
      rw [pure_bind] at h
      exact ⟨_, n, by rw [if_neg hacquire, if_pos hrelease], hid, by simpa [eq_comm] using h⟩
    · rw [runOn_bind, runOn_throw] at h
      cases h

/-- One operation of a core is lowered in place. -/
theorem lowerCoreOp_ok {intrinsics : String × String} {symbols : BufferSymbols}
    {locals : List String} {tile : Tile} {id : OpId}
    (h : runOn (lowerCoreOp intrinsics symbols locals tile id) p = (.ok (), q)) :
    ∃ g, q = p.modify id g ∧ StandardForm intrinsics symbols.get? (p.op id) (g (p.op id)) := by
  rw [lowerCoreOp, get_bind_ok] at h
  dsimp only at h
  split at h
  · rename_i huse
    obtain ⟨intrinsic, n, hintrinsic, hid, hq⟩ := lowerLockUse_ok h
    refine ⟨_, hq, ?_⟩
    rw [StandardForm, if_pos huse]
    exact ⟨intrinsic, n, hintrinsic, hid, rfl⟩
  · rename_i huse
    obtain ⟨operands, u, hoperands, h⟩ := bind_ok.1 h
    have hpair : ((p.op id).operands.mapM (lowerOperand symbols locals tile), p) =
      (.ok operands, u) := hoperands
    rw [Prod.mk.injEq] at hpair
    obtain ⟨hmap, rfl⟩ := hpair
    refine ⟨({ · with operands }), by simpa [eq_comm] using h, ?_⟩
    rw [StandardForm, if_neg huse, lowerOperands_ok hmap]

/-- Putting symbols in place of values leaves integers as they are. -/
theorem Attribute.int?_substitute (symbol? : String → Option String) (a : Attribute) :
    (a.substitute symbol?).int? = a.int? := by
  cases a with
  | value v =>
      rw [substitute]
      cases symbol? v <;> rfl
  | _ => rfl

/-- A value that is there after the substitution was there before. -/
theorem Attribute.value?_substitute {symbol? : String → Option String} {a : Attribute} {v : String}
    (h : (a.substitute symbol?).value? = some v) : a.value? = some v := by
  cases a with
  | value w =>
      rw [substitute] at h
      cases hw : symbol? w with
      | none => rwa [hw] at h
      | some symbol =>
          rw [hw] at h
          cases h
  | _ => exact h

/-- A lowered operation keeps what matters for the placement of others. -/
theorem StandardForm.keepsPlace {intrinsics : String × String} {symbol? : String → Option String}
    {op op' : Operation} (h : StandardForm intrinsics symbol? op op') :
    Program.KeepsPlace op op' := by
  rw [StandardForm] at h
  split at h
  · rename_i huse
    obtain ⟨intrinsic, n, -, -, rfl⟩ := h
    rw [Operation.is, beq_iff_eq] at huse
    refine ⟨rfl, ?_, fun htile => ?_, fun v hv => ?_⟩
    · rw [Operation.is, Operation.is, huse]
      rfl
    · simp [Operation.is] at htile
    · simp [Operation.operandValue?, Attribute.value?] at hv
  · subst h
    refine ⟨rfl, rfl, fun _ => ?_, fun v hv => ?_⟩
    · have hint : ∀ i, Operation.operandInt? { op with
          operands := op.operands.map (.substitute symbol?) } i = op.operandInt? i := fun i => by
        rw [Operation.operandInt?, List.getElem?_map, Operation.operandInt?]
        cases op.operands[i]? with
        | none => rfl
        | some a => exact a.int?_substitute symbol?
      rw [Operation.tile?, hint, hint, Operation.tile?]
    · rw [Operation.operandValue?, List.getElem?_map] at hv
      rw [Operation.operandValue?]
      cases hop : op.operands[0]? with
      | none => simp [hop] at hv
      | some a =>
          rw [hop] at hv
          exact Attribute.value?_substitute hv

/-! ### Moving the operations of a core -/

/-- A function at the top that has received the operations `moved` of a core, where `rest` are the
ones still to come and `others` is the body apart from the function. -/
structure Program.Moving (base : Program) (i : Nat) (function core : OpId)
    (others moved rest : Forest OpId) (q : Program) : Prop where
  body : q.body = others.insertAt i function moved
  size : q.slots.size = base.slots.size
  op : ∀ id, q.op id = base.op id
  live : ∀ id, q.isLive id = base.isLive id
  distinct : others.Distinct
  below : others.below? core = some rest
  inner : core ∉ others.roots
  fresh : function ∉ others.preorder
  disjoint : ∀ x ∈ moved.preorder, x ∉ others.preorder

/-- One more operation is moved. -/
theorem Program.Moving.step {base : Program} {i : Nat} {function core c : OpId}
    {others moved below rest : Forest OpId} (h : base.Moving i function core others moved
      (.cons c below rest) q) (hregion : (base.op function).hasRegion = true)
    (hsize : function < base.slots.size) :
    base.Moving i function core (others.remove c) (moved ++ .single c below) rest
      (q.moveTo c (some function)) := by
  have hc : c ∈ (Forest.cons c below rest).preorder := by simp
  have hcothers := (h.distinct.below h.below).2.2 c hc
  have hbelow : others.below? c = some below :=
    Forest.below?_trans h.distinct h.below (by rw [Forest.below?, if_pos rfl])
  have hcf : c ≠ function := by
    rintro rfl
    exact h.fresh hcothers
  have hcmoved : c ∉ moved.preorder := fun hmem => h.disjoint c hmem hcothers
  have hqbelow : q.below c = below :=
    below_of_below? (by rw [h.body, Forest.below?_insertAt hcf hcmoved, hbelow])
  obtain ⟨hcb, hcr, -, -, -⟩ := Forest.distinct_cons.1 (h.distinct.below h.below).1
  have hcore : core ≠ c := by
    rintro rfl
    exact (h.distinct.below h.below).2.1 hc
  have hcorebelow : core ∉ below.preorder := fun hmem =>
    (h.distinct.below h.below).2.1 (by simp [hmem])
  have hfremove : function ∉ (others.remove c).preorder := fun hmem =>
    h.fresh (Forest.mem_preorder_of_remove h.distinct hmem)
  have hop : ∀ id, (q.moveTo c (some function)).op id = q.op id := fun id => by
    by_cases hid : id = function
    · subst hid
      rw [op_moveTo_parent (h.size ▸ hsize), h.op, ← hregion]
    · exact op_congr (slot_moveTo_of_ne hid)
  refine ⟨?_, by rw [size_moveTo, h.size], fun id => by rw [hop, h.op], fun id => ?_,
    h.distinct.remove c, ?_, ?_, hfremove, fun x hx => ?_⟩
  · rw [body_moveTo, hqbelow, h.body,
      Forest.remove_insertAt hcf (h.distinct.notMem_roots_of_below h.below hc),
      Forest.remove_eq_self hcmoved, Forest.update_insertAt_self hfremove]
  · rw [isLive_moveTo, h.live]
  · have := Forest.below?_remove h.distinct hcore h.below fun g hg => by
      rw [hbelow] at hg
      cases hg
      exact hcorebelow
    rwa [Forest.remove, if_pos rfl] at this
  · rw [Forest.roots_remove h.distinct]
    exact fun hmem => h.inner (List.mem_filter.1 hmem).1
  · rw [Forest.preorder_append, List.mem_append] at hx
    rcases hx with hx | hx
    · exact fun hmem => h.disjoint x hx (Forest.mem_preorder_of_remove h.distinct hmem)
    · rw [Forest.mem_preorder_remove h.distinct hbelow]
      rintro ⟨-, hxc, hxb⟩
      rcases List.mem_cons.1 (by simpa [Forest.single] using hx) with hx | hx
      · exact hxc hx
      · exact hxb hx

/-- All operations of a core are moved. -/
theorem Program.Moving.run {base : Program} {i : Nat} {function core : OpId}
    {others moved rest : Forest OpId} (h : base.Moving i function core others moved rest p)
    (hregion : (base.op function).hasRegion = true) (hsize : function < base.slots.size)
    (hrun : runOn (rest.roots.forM fun child => Action.moveTo child function) p = (.ok (), q)) :
    ∃ others', base.Moving i function core others' (moved ++ rest) .nil q ∧
      others'.remove core = others.remove core := by
  induction rest generalizing p others moved with
  | nil =>
      obtain rfl := forM_nil_ok.1 hrun
      exact ⟨others, by rwa [Forest.append_nil], rfl⟩
  | cons c below rest _ ih =>
      obtain ⟨r, hc, hrun⟩ := forM_cons_ok.1 hrun
      obtain rfl : p.moveTo c (some function) = r := by simpa using hc
      obtain ⟨others', hmoving, hremove⟩ := ih (h.step hregion hsize) hrun
      refine ⟨others', ?_, ?_⟩
      · rw [Forest.append_assoc] at hmoving
        exact hmoving
      · rw [hremove, Forest.remove_remove_of_below h.distinct h.below (by simp)]

/-! ### The function of one core -/

/-- A program in which a core has become a function at the top, its operations as a relation
tells. -/
structure Program.Outlined (p : Program) (core : OpId) (code : Forest OpId) (function : Operation)
    (R : Operation → Operation → Prop) (q : Program) : Prop where
  body : ∃ i, q.body = (p.body.remove core).insertAt i p.slots.size code
  size : q.slots.size = p.slots.size + 1
  created : q.op p.slots.size = function
  lowered : ∀ id ∈ code.preorder, R (p.op id) (q.op id)
  kept : ∀ id, id < p.slots.size → id ∉ code.preorder → q.op id = p.op id
  live : q.isLive p.slots.size = true ∧
    ∀ id, id < p.slots.size → id ≠ core → q.isLive id = p.isLive id

/-- The function that a core on a tile becomes at first. -/
def Tile.standardFunction (tile : Tile) : Operation where
  name := "func.func"
  operands := [.symbol tile.coreSymbol]
  hasRegion := true

/-- The operations of a core are moved into a new function, and the core is erased. -/
theorem outline_ok (hp : p.WellFormed) {device core : OpId} {code : Forest OpId}
    {function : Operation} (hdevice : device ∈ p.body.roots)
    (hcore : p.body.below? core = some code)
    (hinner : core ∉ p.body.roots) (hregion : function.hasRegion = true)
    (h : runOn (do
      let function ← Action.insertBefore device function
      ((← get).children (some core)).forM fun child => Action.moveTo child function
      Action.erase core) p = (.ok (), q)) :
    p.Outlined core code function (fun op op' => op' = op) q := by
  obtain ⟨hdistinct, hcorecode, hsub⟩ := hp.distinct.below hcore
  have hcorewalk : core ∈ p.walk := Forest.mem_preorder_of_below? hcore
  have hne : core ≠ p.slots.size := Nat.ne_of_lt (hp.created core hcorewalk)
  obtain ⟨_, base, hinsert, h⟩ := bind_ok.1 h
  obtain ⟨i, hi⟩ := Program.insertBefore_of_mem_roots hp hdevice function
  rw [runOn_insertBefore, hi] at hinsert
  simp only [Program.fst_insertAt, Prod.mk.injEq, Except.ok.injEq] at hinsert
  obtain ⟨rfl, hbase⟩ := hinsert
  have hnew : base.slots[p.slots.size]? = some { op := function } :=
    hbase ▸ Program.slot_insertAt_new p i function
  have hold : ∀ id, id < p.slots.size → base.slots[id]? = p.slots[id]? := fun id hid =>
    hbase ▸ Program.slot_insertAt_none hid i function
  have hbody : base.body = p.body.insertAt i p.slots.size .nil := by
    rw [← hbase, Program.body_insertAt_none]
  have hsize : base.slots.size = p.slots.size + 1 := by rw [← hbase, Program.size_insertAt]
  have hchildren : base.children (some core) = code.roots := by
    rw [Program.children, Program.block, Program.below_of_below?]
    rw [hbody, Forest.below?_insertAt hne (by simp), hcore]
  rw [get_bind_ok, hchildren] at h
  obtain ⟨_, u, hmoves, h⟩ := bind_ok.1 h
  obtain rfl : u.erase core = q := by simpa using h
  have hstart : base.Moving i p.slots.size core p.body .nil code base :=
    ⟨hbody, rfl, fun _ => rfl, fun _ => rfl, hp.distinct, hcore, hinner, hp.notMem_walk, by simp⟩
  have hfunction : base.op p.slots.size = function := by
    rw [Program.op, hnew]
    rfl
  obtain ⟨others, hu, hothers⟩ := hstart.run (by rw [hfunction, hregion])
    (hsize ▸ Nat.lt_succ_self _) hmoves
  rw [Forest.nil_append] at hu
  have hwalkIn : u.walkIn core = [] := by
    rw [Program.walkIn, Program.below_of_below?, Forest.preorder_nil]
    rw [hu.body, Forest.below?_insertAt hne hcorecode, hu.below]
  refine ⟨⟨i, ?_⟩, ?_, ?_, fun id hid => ?_, fun id hid _ => ?_, ?_, fun id hid hne => ?_⟩
  · rw [Program.body_erase, hu.body, Forest.remove_insertAt hne hu.inner, hothers,
      Forest.remove_eq_self hcorecode]
  · rw [Program.size_erase, hu.size, hsize]
  · rw [Program.op_erase, hu.op, hfunction]
  · rw [Program.op_erase, hu.op, Program.op_congr (hold id (hp.created id (hsub id hid)))]
  · rw [Program.op_erase, hu.op, Program.op_congr (hold id hid)]
  · rw [Program.isLive_erase, hu.live, hwalkIn]
    refine ⟨?_, Ne.symm hne, by simp⟩
    rw [Program.isLive, hnew]
    rfl
  · have := Program.isLive_erase u core id
    rw [hu.live, hwalkIn, Program.isLive_congr (hold id hid)] at this
    rw [Bool.eq_iff_iff, this]
    simp [hne]

/-- A core anywhere below the top becomes a function before a device. -/
theorem lowerCore_outlined (hp : p.WellFormed) {device core : OpId} {symbols : BufferSymbols}
    {code : Forest OpId} (hdevice : device ∈ p.body.roots) (hbelow : p.body.below? core = some code)
    (hinner : core ∉ p.body.roots) (h : runOn (lowerCore device symbols core) p = (.ok (), q)) :
    ∃ tile, p.owningTile? core = some tile ∧ p.Outlined core code tile.standardFunction
      (StandardForm (p.modelOf device).lockIntrinsics symbols.get?) q := by
  obtain ⟨hdistinct, -, hsub⟩ := hp.distinct.below hbelow
  rw [lowerCore, get_bind_ok] at h
  obtain ⟨tile, htile, h⟩ := orFail_bind_ok.1 h
  obtain ⟨_, r, hops, h⟩ := bind_ok.1 h
  rw [Program.walkIn, Program.below_of_below? hbelow] at hops
  obtain ⟨hr, hlowered⟩ := forM_edited
    (R := fun id op => StandardForm (p.modelOf device).lockIntrinsics symbols.get? (p.op id) op)
    hdistinct (fun id hid => hp.created id (hsub id hid)) hops fun id _ r s _ hop hstep => by
      obtain ⟨g, hs, hform⟩ := lowerCoreOp_ok hstep
      exact ⟨g, hs, hop ▸ hform⟩
  have hq := outline_ok (hr.wellFormed hp) (hr.body ▸ hdevice) (hr.body ▸ hbelow)
    (hr.body ▸ hinner) rfl h
  refine ⟨tile, htile, ?_, ?_, ?_, fun id hid => ?_, fun id hid hnot => ?_, ?_,
    fun id hid hne => ?_⟩
  · obtain ⟨i, hi⟩ := hq.body
    exact ⟨i, by rw [hi, hr.body, hr.size]⟩
  · rw [hq.size, hr.size]
  · rw [← hr.size, hq.created]
    rfl
  · rw [hq.lowered id hid]
    exact hlowered id hid
  · rw [hq.kept id (hr.size.symm ▸ hid) hnot, hr.kept id hnot]
  · rw [← hr.size]
    exact hq.live.1
  · rw [hq.live.2 id (hr.size.symm ▸ hid) hne, hr.live]

/-- A core becomes a function before its device. -/
theorem lowerCore_ok (hp : p.WellFormed) {device core : OpId} {symbols : BufferSymbols}
    {inside code : Forest OpId} (hdevice : (device, inside) ∈ p.body.trees)
    (hcore : inside.below? core = some code)
    (h : runOn (lowerCore device symbols core) p = (.ok (), q)) :
    ∃ tile, p.owningTile? core = some tile ∧ p.Outlined core code tile.standardFunction
      (StandardForm (p.modelOf device).lockIntrinsics symbols.get?) q := by
  have hinside := Forest.below?_of_mem_trees hp.distinct hdevice
  exact lowerCore_outlined hp (Forest.mem_roots.2 ⟨_, hdevice⟩)
    (Forest.below?_trans hp.distinct hinside hcore)
    (hp.distinct.notMem_roots_of_below hinside (Forest.mem_preorder_of_below? hcore)) h

end TileFlow
