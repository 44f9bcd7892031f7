import TileFlow.Proofs.Core.Function

/-!
# Functions in place of devices

A device is replaced by globals, functions and declarations, which are put before it at the top.
Nothing that was at the top before it or is put there goes away when a later device is replaced.

## Main definitions

* `Program.Leaves`, `Program.Spares`: a program that has lost some of the trees at the top, or their
  contents.
* `Program.Outlines`: a program in which a core has become a function.

## Main results

* `Program.Outlining.step`, `Program.Outlining.run`: the cores of a device, one after the other.
* `lowerDevice_outlines`: every core of a device becomes a function.
* `lowerCores_outlines`: every core of every device does.
-/

namespace TileFlow

open TileFlow.Action

variable {p q r s : Program} {l l' : List OpId}

/-- A program that keeps the trees at the top but for those of a list, and names no more values. -/
structure Program.Leaves (p : Program) (l : List OpId) (q : Program) : Prop where
  wellFormed : q.WellFormed
  size : p.slots.size ≤ q.slots.size
  trees : ∀ t ∈ p.body.trees, t.1 ∉ l → t ∈ q.body.trees ∧
    ∀ id, id = t.1 ∨ id ∈ t.2.preorder → q.op id = p.op id
  resolves : p.Resolves q

/-- A program that keeps the trees at the top but for those of a list, and has only live
operations. -/
structure Program.Spares (p : Program) (l : List OpId) (q : Program) : Prop extends
    p.Leaves l q where
  live : ∀ id ∈ q.walk, q.isLive id = true

namespace Program.Leaves

/-- Every well-formed program leaves nothing behind. -/
theorem refl (hp : p.WellFormed) : p.Leaves l p :=
  ⟨hp, Nat.le_refl _, fun _ ht _ => ⟨ht, fun _ _ => rfl⟩, .refl p⟩

/-- What two steps in a row leave behind is the two lists together. -/
theorem trans (h : p.Leaves l q) (h' : q.Leaves l' r) : p.Leaves (l ++ l') r where
  wellFormed := h'.wellFormed
  size := Nat.le_trans h.size h'.size
  trees t ht hl := by
    rw [List.mem_append, not_or] at hl
    obtain ⟨htq, hop⟩ := h.trees t ht hl.1
    obtain ⟨htr, hop'⟩ := h'.trees t htq hl.2
    exact ⟨htr, fun id hid => (hop' id hid).trans (hop id hid)⟩
  resolves := h.resolves.trans h'.resolves

/-- Trees at the top are kept, if those in question are. -/
theorem restrict (h : p.Leaves l q) (hl : ∀ t ∈ p.body.trees, t.1 ∉ l' → t.1 ∉ l) :
    p.Leaves l' q :=
  ⟨h.wellFormed, h.size, fun t ht hnot => h.trees t ht (hl t ht hnot), h.resolves⟩

/-- Fewer operations may be left behind than allowed. -/
theorem mono (h : p.Leaves l q) (hl : ∀ id ∈ l, id ∈ l') : p.Leaves l' q :=
  h.restrict fun _ _ hnot hmem => hnot (hl _ hmem)

section Tree

variable {t : OpId × Forest OpId} {id : OpId}

/-- What is below an operation of a tree that is kept. -/
theorem below (h : p.Leaves l q) (hp : p.WellFormed) (ht : t ∈ p.body.trees) (hl : t.1 ∉ l)
    (hid : id = t.1 ∨ id ∈ t.2.preorder) : q.below id = p.below id ∧
      ∀ j ∈ (p.below id).preorder, j ∈ t.2.preorder := by
  have htp := Forest.below?_of_mem_trees hp.distinct ht
  have htq := Forest.below?_of_mem_trees h.wellFormed.distinct (h.trees t ht hl).1
  rcases hid with rfl | hid
  · rw [below_of_below? htq, below_of_below? htp]
    exact ⟨rfl, fun _ hj => hj⟩
  · obtain ⟨g, hg⟩ := Forest.mem_preorder_iff.1 hid
    rw [below_of_below? (Forest.below?_trans hp.distinct htp hg),
      below_of_below? (Forest.below?_trans h.wellFormed.distinct htq hg)]
    exact ⟨rfl, ((hp.distinct.below htp).1.below hg).2.2⟩

/-- The operations with a name below an operation of a tree that is kept. -/
theorem findIn (h : p.Leaves l q) (hp : p.WellFormed) (ht : t ∈ p.body.trees) (hl : t.1 ∉ l)
    (hid : id = t.1 ∨ id ∈ t.2.preorder) (name : String) : q.findIn id name = p.findIn id name := by
  obtain ⟨hbelow, hsub⟩ := h.below hp ht hl hid
  rw [Program.findIn, Program.walkIn, hbelow, Program.findIn, Program.walkIn]
  refine List.filter_congr fun j hj => ?_
  rw [(h.trees t ht hl).2 j (.inr (hsub j hj))]

end Tree

/-- A program that keeps all trees keeps all operations. -/
theorem op (h : p.Leaves [] q) {id : OpId} (hid : id ∈ p.walk) : q.op id = p.op id := by
  obtain ⟨t, ht, hid⟩ := Forest.mem_preorder_iff_trees.1 hid
  exact (h.trees t ht List.not_mem_nil).2 id hid

end Program.Leaves

namespace Program.Spares

/-- A well-formed program with no dangling operation spares itself. -/
theorem refl (hp : p.WellFormed) (hlive : ∀ id ∈ p.walk, p.isLive id = true) : p.Spares l p :=
  ⟨.refl hp, hlive⟩

/-- What two steps in a row may touch is the two lists together. -/
theorem trans (h : p.Spares l q) (h' : q.Spares l' r) : p.Spares (l ++ l') r :=
  ⟨h.toLeaves.trans h'.toLeaves, h'.live⟩

/-- A step may touch less than it is allowed to. -/
theorem mono (h : p.Spares l q) (hl : ∀ id ∈ l, id ∈ l') : p.Spares l' q :=
  ⟨h.toLeaves.mono hl, h.live⟩

end Program.Spares

/-- A new operation without a result before one at the top. -/
theorem insertBefore_leaves (hp : p.WellFormed) {id : OpId} (hid : id ∈ p.body.roots)
    {op : Operation} (hresult : op.result = none) : p.Leaves [] (p.insertBefore id op).2 := by
  obtain ⟨i, hi⟩ := Program.insertBefore_of_mem_roots hp hid op
  rw [hi]
  have hold : ∀ id ∈ p.walk, (p.insertAt none i op).2.slots[id]? = p.slots[id]? := fun id hid =>
    Program.slot_insertAt_none (hp.created id hid) i op
  refine ⟨hp.insertAt_none i op, ?_, fun t ht _ => ⟨?_, fun id hid => ?_⟩, fun id hid hres => ?_⟩
  · rw [Program.size_insertAt]
    exact Nat.le_succ _
  · rw [Program.body_insertAt_none]
    exact Forest.mem_trees_insertAt.2 (.inr ht)
  · exact Program.op_congr (hold id (Forest.mem_preorder_iff_trees.2 ⟨t, ht, hid⟩))
  · rcases Program.mem_walk_insertAt_none.1 hid with rfl | hid
    · rw [Program.op, Program.slot_insertAt_new] at hres
      exact absurd hresult hres
    · rw [Program.op_congr (hold id hid)]
      exact ⟨hid, .refl _⟩

/-- Inserting an operation without result at the top touches none of the others. -/
theorem insertBefore_spares (hp : p.WellFormed) (hlive : ∀ id ∈ p.walk, p.isLive id = true)
    {id : OpId} (hid : id ∈ p.body.roots) {op : Operation} (hresult : op.result = none) :
    p.Spares [] (p.insertBefore id op).2 := by
  refine ⟨insertBefore_leaves hp hid hresult, fun j hj => ?_⟩
  obtain ⟨i, hi⟩ := Program.insertBefore_of_mem_roots hp hid op
  rw [hi] at hj ⊢
  rcases Program.mem_walk_insertAt_none.1 hj with rfl | hj
  · rw [Program.isLive, Program.slot_insertAt_new]
    rfl
  · rw [Program.isLive_congr (Program.slot_insertAt_none (hp.created j hj) i op), hlive j hj]

/-- An operation at the top that is erased. -/
theorem erase_leaves (hp : p.WellFormed) {id : OpId} (hid : id ∈ p.body.roots) :
    p.Leaves [id] (p.erase id) := by
  refine ⟨hp.erase id, Nat.le_of_eq (Program.size_erase p id).symm,
    fun t ht hne => ⟨?_, fun j _ => Program.op_erase p id j⟩, fun j hj _ => ?_⟩
  · rw [List.mem_singleton] at hne
    exact Forest.mem_trees_remove hp.distinct ht (Ne.symm hne) (hp.distinct.root_not_below ht hid)
  · exact ⟨Forest.mem_preorder_of_remove hp.distinct hj, by rw [Program.op_erase]; exact .refl _⟩

/-- Erasing an operation of the top touches that one only. -/
theorem erase_spares (hp : p.WellFormed) (hlive : ∀ id ∈ p.walk, p.isLive id = true) {id : OpId}
    (hid : id ∈ p.body.roots) : p.Spares [id] (p.erase id) := by
  refine ⟨erase_leaves hp hid, fun j hj => ?_⟩
  obtain ⟨inside, hinside⟩ := Forest.mem_roots.1 hid
  have hbelow := Forest.below?_of_mem_trees hp.distinct hinside
  obtain ⟨hjp, hne, hnot⟩ := (Forest.mem_preorder_remove hp.distinct hbelow).1 hj
  rw [Program.isLive_erase, Program.walkIn, Program.below_of_below? hbelow]
  exact ⟨hlive j hjp, hne, hnot⟩

section Outlined

variable {core : OpId} {code : Forest OpId} {function : Operation}
  {R : Operation → Operation → Prop}

/-- The operations of a program without a core, and with a function. -/
theorem Program.Outlined.mem_walk (h : p.Outlined core code function R q) (hp : p.WellFormed)
    (hcore : p.body.below? core = some code) {id : OpId} (hid : id ∈ q.walk) :
    id = p.slots.size ∨ (id ∈ p.walk ∧ id ≠ core) := by
  obtain ⟨-, hcorecode, hsub⟩ := hp.distinct.below hcore
  obtain ⟨i, hbody⟩ := h.body
  rw [Program.walk, hbody, Forest.mem_preorder_insertAt,
    Forest.mem_preorder_remove hp.distinct hcore] at hid
  rcases hid with hid | hid | ⟨hid, hne, -⟩
  · exact .inl hid
  · exact .inr ⟨hsub id hid, by rintro rfl; exact hcorecode hid⟩
  · exact .inr ⟨hid, hne⟩

/-- Outlining a core keeps the program well-formed. -/
theorem Program.Outlined.wellFormed (h : p.Outlined core code function R q) (hp : p.WellFormed)
    (hcore : p.body.below? core = some code) : q.WellFormed := by
  obtain ⟨hdistinct, -, hsub⟩ := hp.distinct.below hcore
  have hremove : ∀ id, id ∈ (p.body.remove core).preorder ↔
      id ∈ p.walk ∧ id ≠ core ∧ id ∉ code.preorder := fun id =>
    Forest.mem_preorder_remove hp.distinct hcore
  obtain ⟨i, hbody⟩ := h.body
  refine ⟨?_, fun id hid => ?_⟩
  · rw [hbody]
    refine (hp.distinct.remove core).insertAt hdistinct ?_ ?_ (fun x hx => ?_) i
    · rw [hremove]
      exact fun hmem => hp.notMem_walk hmem.1
    · exact fun hmem => hp.notMem_walk (hsub _ hmem)
    · rw [hremove]
      exact fun hmem => hmem.2.2 hx
  · rw [h.size]
    rcases h.mem_walk hp hcore hid with rfl | hid
    · exact Nat.lt_succ_self _
    · exact Nat.lt_succ_of_lt (hp.created id hid.1)

/-- The trees at the top without a core, and with its function. -/
theorem Program.Outlined.mem_trees (h : p.Outlined core code function R q)
    {t : OpId × Forest OpId} :
    t ∈ q.body.trees ↔ t = (p.slots.size, code) ∨ t ∈ (p.body.remove core).trees := by
  obtain ⟨i, hbody⟩ := h.body
  rw [hbody, Forest.mem_trees_insertAt]

/-- No value comes to name another tile. -/
theorem Program.Outlined.resolves (h : p.Outlined core code function R q) (hp : p.WellFormed)
    (hcore : p.body.below? core = some code) (hresult : function.result = none)
    (hR : ∀ op op', R op op' → KeepsPlace op op') : p.Resolves q := by
  intro id hid hres
  rcases h.mem_walk hp hcore hid with rfl | ⟨hid, -⟩
  · rw [h.created] at hres
    exact absurd hresult hres
  · refine ⟨hid, ?_⟩
    by_cases hcode : id ∈ code.preorder
    · exact hR _ _ (h.lowered id hcode)
    · rw [h.kept id (hp.created id hid) hcode]
      exact .refl _

/-- A core that becomes a function is lost from its device only. -/
theorem Program.Outlined.leaves {device : OpId} {inside : Forest OpId}
    (h : p.Outlined core code function R q) (hp : p.WellFormed)
    (hdevice : (device, inside) ∈ p.body.trees) (hcore : inside.below? core = some code)
    (hresult : function.result = none) (hR : ∀ op op', R op op' → KeepsPlace op op') :
    p.Leaves [device] q := by
  have hinside := Forest.below?_of_mem_trees hp.distinct hdevice
  have hbelow : p.body.below? core = some code := Forest.below?_trans hp.distinct hinside hcore
  have hcoreinside := Forest.mem_preorder_of_below? hcore
  have hcodeinside := ((hp.distinct.below hinside).1.below hcore).2.2
  have hcoreroot := hp.distinct.notMem_roots_of_below hinside hcoreinside
  refine ⟨h.wellFormed hp hbelow, ?_, fun t ht hne => ⟨?_, fun id hid => ?_⟩,
    h.resolves hp hbelow hresult hR⟩
  · rw [h.size]
    exact Nat.le_succ _
  · rw [List.mem_singleton] at hne
    refine h.mem_trees.2 (.inr (Forest.mem_trees_remove hp.distinct ht ?_ ?_))
    · rintro rfl
      exact hcoreroot (Forest.mem_roots.2 ⟨_, ht⟩)
    · exact hp.distinct.trees_disjoint hdevice ht (Ne.symm hne) hcoreinside
  · rw [List.mem_singleton] at hne
    refine h.kept id (hp.created id (Forest.mem_preorder_iff_trees.2 ⟨t, ht, hid⟩)) fun hmem => ?_
    rcases hid with rfl | hid
    · exact hp.distinct.root_not_below hdevice (Forest.mem_roots.2 ⟨_, ht⟩) (hcodeinside _ hmem)
    · exact hp.distinct.trees_disjoint hdevice ht (Ne.symm hne) (hcodeinside _ hmem) hid

/-- Outlining a core touches the operations of its device only. -/
theorem Program.Outlined.spares {device : OpId} {inside : Forest OpId}
    (h : p.Outlined core code function R q) (hp : p.WellFormed)
    (hlive : ∀ id ∈ p.walk, p.isLive id = true) (hdevice : (device, inside) ∈ p.body.trees)
    (hcore : inside.below? core = some code) (hresult : function.result = none)
    (hR : ∀ op op', R op op' → KeepsPlace op op') :
    p.Spares [device] q ∧ (device, inside.remove core) ∈ q.body.trees ∧
      (p.slots.size, code) ∈ q.body.trees := by
  have hinside := Forest.below?_of_mem_trees hp.distinct hdevice
  have hbelow : p.body.below? core = some code := Forest.below?_trans hp.distinct hinside hcore
  refine ⟨⟨h.leaves hp hdevice hcore hresult hR, fun id hid => ?_⟩, ?_, h.mem_trees.2 (.inl rfl)⟩
  · rcases h.mem_walk hp hbelow hid with rfl | ⟨hid, hne⟩
    · exact h.live.1
    · rw [h.live.2 id (hp.created id hid) hne, hlive id hid]
  · refine h.mem_trees.2 (.inr ?_)
    rw [Forest.trees_remove hp.distinct]
    refine List.mem_map.2 ⟨(device, inside), List.mem_filter.2 ⟨hdevice, ?_⟩, rfl⟩
    simp only [decide_eq_true_eq]
    rintro rfl
    exact hp.distinct.notMem_roots_of_below hinside (Forest.mem_preorder_of_below? hcore)
      (Forest.mem_roots.2 ⟨_, hdevice⟩)

end Outlined

/-! ### Globals -/

/-- The symbols with the one of a buffer, if it has a value. -/
def BufferSymbols.enter (symbols : BufferSymbols) (buffer : Operation) : BufferSymbols :=
  match buffer.result, buffer.symbolName? with
  | some value, some symbol => (value, symbol) :: symbols
  | _, _ => symbols

/-- The first buffer that defines a value gives its symbol. -/
theorem BufferSymbols.get?_cons (value symbol v : String) (symbols : BufferSymbols) :
    get? ((value, symbol) :: symbols) v = if value = v then some symbol else symbols.get? v := by
  rw [get?, List.find?_cons]
  by_cases h : value = v
  · simp [h]
  · simp [beq_eq_false_iff_ne.2 h, h, get?]

/-- When no two buffers have the same value, its symbol is the one of the buffer that has it. -/
theorem BufferSymbols.get?_foldl_enter {buffers : List Operation} {symbols : BufferSymbols}
    (h : buffers.Pairwise fun a b => ∀ v, a.result = some v → b.result ≠ some v) (v : String) :
    (buffers.foldl enter symbols).get? v =
      ((buffers.find? fun b => b.result == some v).bind (·.symbolName?)).or (symbols.get? v) := by
  induction buffers generalizing symbols with
  | nil => rfl
  | cons b buffers ih =>
      obtain ⟨hother, hrest⟩ := List.pairwise_cons.1 h
      rw [List.foldl_cons, ih hrest, List.find?_cons]
      cases hresult : b.result with
      | none => rw [enter, hresult]; rfl
      | some value =>
          obtain ⟨symbol, hsymbol⟩ : ∃ symbol, b.symbolName? = some symbol := by
            rw [Operation.symbolName?, hresult]
            cases b.textAttr? "sym_name" <;> exact ⟨_, rfl⟩
          rw [enter, hresult, hsymbol]
          dsimp only
          rw [get?_cons]
          by_cases hv : value = v
          · subst hv
            have hnone : (buffers.find? fun b => b.result == some value) = none :=
              List.find?_eq_none.2 fun a ha => by simpa using hother a ha value hresult
            simp [hnone, hsymbol]
          · simp [beq_eq_false_iff_ne.2 hv, hv]

/-- The global of one buffer. -/
theorem insertGlobal_ok (hp : p.WellFormed) (hlive : ∀ id ∈ p.walk, p.isLive id = true)
    {device buffer : OpId} {symbols symbols' : BufferSymbols} (hdevice : device ∈ p.body.roots)
    (h : runOn (insertGlobal device symbols buffer) p = (.ok symbols', q)) :
    p.Spares [] q ∧ symbols' = symbols.enter (p.op buffer) := by
  rw [insertGlobal, get_bind_ok] at h
  dsimp only at h
  split at h
  · rename_i value symbol hresult hsymbol
    obtain ⟨_, u, hinsert, h⟩ := bind_ok.1 h
    rw [runOn_insertBefore, Prod.mk.injEq] at hinsert
    obtain ⟨-, rfl⟩ := hinsert
    obtain ⟨rfl, rfl⟩ := pure_ok.1 h
    rw [BufferSymbols.enter, hresult, hsymbol]
    exact ⟨insertBefore_spares hp hlive hdevice rfl, rfl⟩
  · rename_i hnone
    obtain ⟨rfl, rfl⟩ := pure_ok.1 h
    refine ⟨.refl hp hlive, ?_⟩
    rw [BufferSymbols.enter]
    split
    · rename_i value symbol hresult hsymbol
      exact absurd hsymbol (hnone value symbol hresult)
    · rfl

/-- A program that keeps all trees keeps what is at the top. -/
theorem Program.Leaves.mem_roots (h : p.Leaves [] q) {id : OpId} (hid : id ∈ p.body.roots) :
    id ∈ q.body.roots := by
  obtain ⟨inside, hinside⟩ := Forest.mem_roots.1 hid
  exact Forest.mem_roots.2 ⟨inside, (h.trees _ hinside List.not_mem_nil).1⟩

/-- When nothing is left behind, every operation is still met. -/
theorem Program.Leaves.mem_walk (h : p.Leaves [] q) {id : OpId} (hid : id ∈ p.walk) :
    id ∈ q.walk := by
  obtain ⟨t, ht, hid⟩ := Forest.mem_preorder_iff_trees.1 hid
  exact Forest.mem_preorder_iff_trees.2 ⟨t, (h.trees t ht List.not_mem_nil).1, hid⟩

/-- The globals of some buffers. -/
theorem insertGlobals_ok (hp : p.WellFormed) (hlive : ∀ id ∈ p.walk, p.isLive id = true)
    {device : OpId} {buffers : List OpId} {symbols symbols' : BufferSymbols}
    (hdevice : device ∈ p.body.roots) (hbuffers : ∀ b ∈ buffers, b ∈ p.walk)
    (h : runOn (buffers.foldlM (insertGlobal device) symbols) p = (.ok symbols', q)) :
    p.Spares [] q ∧ symbols' = (buffers.map p.op).foldl BufferSymbols.enter symbols := by
  induction buffers generalizing p symbols with
  | nil =>
      obtain ⟨rfl, rfl⟩ := foldlM_nil_ok.1 h
      exact ⟨.refl hp hlive, rfl⟩
  | cons b buffers ih =>
      obtain ⟨symbols₁, r, hb, h⟩ := foldlM_cons_ok.1 h
      obtain ⟨hr, rfl⟩ := insertGlobal_ok hp hlive hdevice hb
      have hrest : ∀ a ∈ buffers, a ∈ p.walk := fun a ha => hbuffers a (List.mem_cons_of_mem _ ha)
      obtain ⟨hq, rfl⟩ := ih hr.wellFormed hr.live (hr.mem_roots hdevice)
        (fun a ha => hr.mem_walk (hrest a ha)) h
      refine ⟨hr.trans hq, ?_⟩
      rw [List.map_cons, List.foldl_cons, List.map_congr_left fun a ha => hr.op (hrest a ha)]

/-- The symbols of a device are those of its buffers. -/
theorem deviceSymbols_get? (hp : p.WellFormed) (hvalues : p.definedValues.Nodup) {device : OpId}
    (hdevice : device ∈ p.walk) (v : String) :
    (((p.findIn device "aie.buffer").map p.op).foldl BufferSymbols.enter []).get? v =
      p.bufferSymbol? device v := by
  have hmem : ∀ b ∈ p.findIn device "aie.buffer", b ∈ p.walk := fun b hb =>
    hp.mem_walk_of_walkIn hdevice (List.mem_filter.1 hb).1
  have hnodup : (p.findIn device "aie.buffer").Nodup := hp.nodup_findIn hdevice _
  rw [BufferSymbols.get?_foldl_enter, List.find?_map, Program.bufferSymbol?, Option.bind_map]
  · simp only [Function.comp_def]
    exact Option.or_none
  · refine List.pairwise_map.2 ((List.Pairwise.and_mem.1 hnodup).imp ?_)
    rintro a b ⟨ha, hb, hab⟩ w hwa hwb
    exact hab (Program.eq_of_result hvalues (hmem a ha) (hmem b hb) hwa hwb)

/-! ### The cores of a device -/

/-- A program in which a core has become a function, its operations in the form that the stage
gives them. -/
def Program.Outlines (p : Program) (device core : OpId) (q : Program) : Prop :=
  ∃ tile function, p.owningTile? core = some tile ∧ p.slots.size ≤ function ∧
    (function, p.below core) ∈ q.body.trees ∧ q.op function = tile.standardFunction ∧
    ∀ id ∈ (p.below core).preorder,
      StandardForm (p.modelOf device).lockIntrinsics (p.bufferSymbol? device) (p.op id) (q.op id)

/-- A function stays when something is lost that was there before it. -/
theorem Program.Outlines.spares {device core gone : OpId} (h : p.Outlines device core q)
    (hq : q.Spares [gone] r) (hgone : gone < p.slots.size) : p.Outlines device core r := by
  obtain ⟨tile, function, htile, hsize, htree, hop, hform⟩ := h
  have hfresh : function ∉ [gone] := by
    rw [List.mem_singleton]
    rintro rfl
    exact Nat.not_le_of_lt hgone hsize
  obtain ⟨htree', hop'⟩ := hq.trees _ htree hfresh
  exact ⟨tile, function, htile, hsize, htree', (hop' _ (.inl rfl)).trans hop, fun id hid =>
    hop' id (.inr hid) ▸ hform id hid⟩

/-- A device some of whose cores have become functions. -/
structure Program.Outlining (p : Program) (device : OpId) (done rest : List OpId) (q : Program) :
    Prop where
  spares : p.Spares [device] q
  outlines : ∀ core ∈ done, p.Outlines device core q
  same : q.op device = p.op device
  waiting : ∃ inside, (device, inside) ∈ q.body.trees ∧ ∀ core ∈ rest,
    inside.below? core = some (p.below core) ∧
      ∀ id, id = core ∨ id ∈ (p.below core).preorder → q.op id = p.op id

/-- One more core becomes a function. -/
theorem Program.Outlining.step {device core : OpId} {done rest : List OpId}
    {symbols : BufferSymbols} (h : p.Outlining device done (core :: rest) q)
    (hp : p.WellFormed) (hvalues : p.definedValues.Nodup) (hdevice : device ∈ p.body.roots)
    (hsymbols : symbols.get? = p.bufferSymbol? device)
    (hflat : ∀ other ∈ rest, other ≠ core ∧ other ∉ (p.below core).preorder ∧
      core ∉ (p.below other).preorder)
    (hrun : runOn (lowerCore device symbols core) q = (.ok (), r)) :
    p.Outlining device (done ++ [core]) rest r := by
  obtain ⟨inside, hinside, hwaiting⟩ := h.waiting
  obtain ⟨hcore, hops⟩ := hwaiting core List.mem_cons_self
  have hq := h.spares.wellFormed
  have hbelow := Forest.below?_of_mem_trees hq.distinct hinside
  obtain ⟨hdistinct, -, hsub⟩ := hq.distinct.below hbelow
  have hcode := (hdistinct.below hcore).2.2
  obtain ⟨tile, htile, hout⟩ := lowerCore_ok hq hinside hcore hrun
  obtain ⟨hspares, hdevicer, hfunction⟩ := hout.spares hq h.spares.live hinside hcore rfl
    fun _ _ => StandardForm.keepsPlace
  have hsize : device < p.slots.size := hp.created device (Program.mem_walk_of_mem_roots hdevice)
  refine ⟨(h.spares.trans hspares).mono (by simp), fun c hc => ?_, ?_, inside.remove core, hdevicer,
    fun other hother => ?_⟩
  · rcases List.mem_append.1 hc with hc | hc
    · exact (h.outlines c hc).spares hspares hsize
    · obtain rfl := List.mem_singleton.1 hc
      refine ⟨tile, q.slots.size, ?_, h.spares.size, hfunction, hout.created, fun id hid => ?_⟩
      · exact h.spares.resolves.owningTile? hvalues (by rw [hops c (.inl rfl)]) htile
      · have hform := hout.lowered id hid
        rwa [hops id (.inr hid), hsymbols, Program.modelOf, h.same] at hform
  · rw [hout.kept device (hq.created device (Forest.mem_preorder_of_mem_trees hinside).1)
      (fun hmem => hq.distinct.root_not_below hinside (Forest.mem_roots.2 ⟨_, hinside⟩)
        (hcode device hmem)), h.same]
  · obtain ⟨hotherin, hotherops⟩ := hwaiting other (List.mem_cons_of_mem _ hother)
    obtain ⟨hne, hnotin, hnotin'⟩ := hflat other hother
    refine ⟨?_, fun id hid => ?_⟩
    · rw [Forest.below?_remove hdistinct hne hotherin fun g hg => ?_,
        Forest.remove_eq_self hnotin']
      rw [hcore] at hg
      cases hg
      exact hnotin
    · rw [hout.kept id ?_ ?_, hotherops id hid]
      · refine hq.created id (hsub id ?_)
        rcases hid with rfl | hid
        · exact Forest.mem_preorder_of_below? hotherin
        · exact (hdistinct.below hotherin).2.2 id hid
      · rcases hid with rfl | hid
        · exact hnotin
        · exact hdistinct.below_disjoint hotherin hcore hne hnotin hnotin' hid

/-- All cores of a device become functions. -/
theorem Program.Outlining.run {device : OpId} {done rest : List OpId} {symbols : BufferSymbols}
    (h : p.Outlining device done rest q) (hp : p.WellFormed) (hvalues : p.definedValues.Nodup)
    (hdevice : device ∈ p.body.roots) (hsymbols : symbols.get? = p.bufferSymbol? device)
    (hflat : rest.Pairwise fun core other => other ≠ core ∧ other ∉ (p.below core).preorder ∧
      core ∉ (p.below other).preorder)
    (hrun : runOn (rest.forM (lowerCore device symbols)) q = (.ok (), r)) :
    p.Outlining device (done ++ rest) [] r := by
  induction rest generalizing done q with
  | nil =>
      obtain rfl := forM_nil_ok.1 hrun
      rwa [List.append_nil]
  | cons core rest ih =>
      obtain ⟨s, hcore, hrun⟩ := forM_cons_ok.1 hrun
      obtain ⟨hfirst, hflat⟩ := List.pairwise_cons.1 hflat
      have := ih (h.step hp hvalues hdevice hsymbols hfirst hcore) hflat hrun
      rwa [List.append_assoc, List.singleton_append] at this

/-! ### One device -/

/-- Declaring an intrinsic touches none of the operations there are. -/
theorem declareIntrinsic_ok (hp : p.WellFormed) (hlive : ∀ id ∈ p.walk, p.isLive id = true)
    {device : OpId} {declared declared' : List String} {intrinsic : String}
    (hdevice : device ∈ p.body.roots)
    (h : runOn (declareIntrinsic device declared intrinsic) p = (.ok declared', q)) :
    p.Spares [] q := by
  rw [declareIntrinsic] at h
  split at h
  · obtain ⟨-, rfl⟩ := pure_ok.1 h
    exact .refl hp hlive
  · obtain ⟨_, u, hinsert, h⟩ := bind_ok.1 h
    rw [runOn_insertBefore, Prod.mk.injEq] at hinsert
    obtain ⟨-, rfl⟩ := hinsert
    obtain ⟨-, rfl⟩ := pure_ok.1 h
    exact insertBefore_spares hp hlive hdevice rfl

/-- The cores of a device wait to become functions. -/
theorem Program.Outlining.start {device : OpId} (hp : p.WellFormed) (hq : p.Spares [] q)
    (hdevice : device ∈ p.body.roots) :
    p.Outlining device [] (p.findIn device "aie.core") q := by
  obtain ⟨inside, hinside⟩ := Forest.mem_roots.1 hdevice
  have hbelow := Forest.below?_of_mem_trees hp.distinct hinside
  have hwalk := Program.mem_walk_of_mem_roots hdevice
  refine ⟨hq.mono (by simp), fun _ hc => (nomatch hc), hq.op hwalk, inside,
    (hq.trees _ hinside List.not_mem_nil).1, fun core hcore => ?_⟩
  have hmem := (List.mem_filter.1 hcore).1
  have hcorewalk := hp.mem_walk_of_walkIn hwalk hmem
  rw [Program.walkIn, Program.below_of_below? hbelow] at hmem
  obtain ⟨code, hcode⟩ := Forest.mem_preorder_iff.1 hmem
  have hcorebelow := Forest.below?_trans hp.distinct hbelow hcode
  refine ⟨by rw [hcode, Program.below_of_below? hcorebelow], fun id hid => hq.op ?_⟩
  rcases hid with rfl | hid
  · exact hcorewalk
  · exact hp.mem_walk_of_walkIn hcorewalk hid

/-- Cores that hold no cores do not hold each other. -/
theorem cores_apart (hp : p.WellFormed) {device : OpId} (hdevice : device ∈ p.walk)
    (hflat : ∀ core ∈ p.findIn device "aie.core", p.findIn core "aie.core" = []) :
    (p.findIn device "aie.core").Pairwise fun core other => other ≠ core ∧
      other ∉ (p.below core).preorder ∧ core ∉ (p.below other).preorder := by
  have hnodup : (p.findIn device "aie.core").Nodup := hp.nodup_findIn hdevice _
  have hapart : ∀ core ∈ p.findIn device "aie.core", ∀ other ∈ p.findIn device "aie.core",
      other ∉ (p.below core).preorder := fun core hcore other hother hmem => by
    have : other ∈ p.findIn core "aie.core" :=
      List.mem_filter.2 ⟨hmem, (List.mem_filter.1 hother).2⟩
    rw [hflat core hcore] at this
    cases this
  refine (List.Pairwise.and_mem.1 hnodup).imp ?_
  rintro core other ⟨hcore, hother, hne⟩
  exact ⟨Ne.symm hne, hapart core hcore other hother, hapart other hother core hcore⟩

/-- Every core of a device becomes a function, and the other trees at the top stay. -/
theorem lowerDevice_outlines (hp : p.WellFormed) (hlive : ∀ id ∈ p.walk, p.isLive id = true)
    (hvalues : p.definedValues.Nodup) {device : OpId} {declared declared' : List String}
    (hdevice : device ∈ p.body.roots)
    (hflat : ∀ core ∈ p.findIn device "aie.core", p.findIn core "aie.core" = [])
    (h : runOn (lowerDevice declared device) p = (.ok declared', q)) :
    p.Spares [device] q ∧ ∀ core ∈ p.findIn device "aie.core", p.Outlines device core q := by
  have hwalk := Program.mem_walk_of_mem_roots hdevice
  obtain ⟨contents, hcontents⟩ := Forest.mem_roots.1 hdevice
  rw [lowerDevice, get_bind_ok] at h
  obtain ⟨symbols, r, hglobals, h⟩ := bind_ok.1 h
  obtain ⟨hr, rfl⟩ := insertGlobals_ok hp hlive hdevice
    (fun b hb => hp.mem_walk_of_walkIn hwalk (List.mem_filter.1 hb).1) hglobals
  rw [get_bind_ok, hr.findIn hp hcontents List.not_mem_nil (.inl rfl)] at h
  obtain ⟨_, s, hcores, h⟩ := bind_ok.1 h
  have hs := (Program.Outlining.start hp hr hdevice).run hp hvalues hdevice
    (funext fun v => deviceSymbols_get? hp hvalues hwalk v) (cores_apart hp hwalk hflat) hcores
  rw [List.nil_append] at hs
  obtain ⟨inside, hinside, -⟩ := hs.waiting
  have hroots := Forest.mem_roots.2 ⟨_, hinside⟩
  -- The declarations come before the device, which goes away last.
  obtain ⟨_, t, hdeclare, h⟩ := bind_ok.1 h
  obtain ⟨_, u, hacquire, hdeclare⟩ := foldlM_cons_ok.1 hdeclare
  obtain ⟨_, v, hrelease, hdeclare⟩ := foldlM_cons_ok.1 hdeclare
  obtain ⟨-, rfl⟩ := foldlM_nil_ok.1 hdeclare
  have hu := declareIntrinsic_ok hs.spares.wellFormed hs.spares.live hroots hacquire
  have hv := declareIntrinsic_ok hu.wellFormed hu.live (hu.mem_roots hroots) hrelease
  obtain ⟨_, w, herase, h⟩ := bind_ok.1 h
  rw [runOn_erase, Prod.mk.injEq] at herase
  obtain ⟨-, rfl⟩ := herase
  obtain ⟨-, rfl⟩ := pure_ok.1 h
  have hend := (hu.trans hv).trans
    (erase_spares hv.wellFormed hv.live (hv.mem_roots (hu.mem_roots hroots)))
  exact ⟨(hs.spares.trans hend).mono (by simp), fun core hcore =>
    (hs.outlines core hcore).spares hend (hp.created device hwalk)⟩

/-! ### All devices -/

/-- The symbols of the buffers of a device that is kept. -/
theorem Program.Leaves.bufferSymbol? {device : OpId} (h : p.Leaves l q) (hp : p.WellFormed)
    (hdevice : device ∈ p.body.roots) (hl : device ∉ l) :
    q.bufferSymbol? device = p.bufferSymbol? device := by
  obtain ⟨inside, hinside⟩ := Forest.mem_roots.1 hdevice
  funext v
  rw [Program.bufferSymbol?, h.findIn hp hinside hl (.inl rfl), Program.bufferSymbol?]
  have hmem : ∀ b ∈ p.findIn device "aie.buffer", q.op b = p.op b := fun b hb =>
    (h.trees _ hinside hl).2 b (.inr ((h.below hp hinside hl (.inl rfl)).2 b
      (List.mem_filter.1 hb).1))
  revert hmem
  generalize p.findIn device "aie.buffer" = buffers
  intro hmem
  induction buffers with
  | nil => rfl
  | cons b buffers ih =>
      rw [List.find?_cons, List.find?_cons, hmem b List.mem_cons_self]
      split
      · rw [Option.bind_some, Option.bind_some, hmem b List.mem_cons_self]
      · exact ih fun a ha => hmem a (List.mem_cons_of_mem _ ha)

/-- A core that becomes a function in a program which has kept its device becomes one. -/
theorem Program.Leaves.outlines {device core : OpId} (h : p.Leaves l q) (hp : p.WellFormed)
    (hvalues : p.definedValues.Nodup) (hdevice : device ∈ p.body.roots) (hl : device ∉ l)
    (hcore : core ∈ p.walkIn device) (hout : q.Outlines device core r) :
    p.Outlines device core r := by
  obtain ⟨inside, hinside⟩ := Forest.mem_roots.1 hdevice
  rw [Program.walkIn, Program.below_of_below? (Forest.below?_of_mem_trees hp.distinct hinside)]
    at hcore
  have hop := (h.trees _ hinside hl).2
  obtain ⟨hbelow, hsub⟩ := h.below hp hinside hl (.inr hcore)
  have hmodel : q.modelOf device = p.modelOf device := by
    rw [Program.modelOf, hop device (.inl rfl), Program.modelOf]
  have hsymbol := h.bufferSymbol? hp hdevice hl
  obtain ⟨tile, function, htile, hsize, htree, hfunction, hform⟩ := hout
  rw [hbelow] at htree hform
  rw [hmodel, hsymbol] at hform
  refine ⟨tile, function, ?_, Nat.le_trans h.size hsize, htree, hfunction, fun id hid => ?_⟩
  · exact h.resolves.owningTile? hvalues (hop core (.inr hcore)) htile
  · rw [← hop id (.inr (hsub id hid))]
    exact hform id hid

/-- One more device is replaced by the functions of its cores. -/
theorem lowerDevice_step (hp : p.WellFormed) (hvalues : p.definedValues.Nodup)
    (hflat : ∀ core ∈ p.findAll "aie.core", p.findIn core "aie.core" = []) {device : OpId}
    {done : List OpId} {declared declared' : List String} (hq : p.Spares done q)
    (hdone : ∀ device ∈ done, ∀ core ∈ p.findIn device "aie.core", p.Outlines device core q)
    (hdevice : device ∈ p.devices) (hfresh : device ∉ done)
    (h : runOn (lowerDevice declared device) q = (.ok declared', r)) :
    p.Spares (done ++ [device]) r ∧ ∀ device' ∈ done ++ [device],
      ∀ core ∈ p.findIn device' "aie.core", p.Outlines device' core r := by
  have hroot : device ∈ p.body.roots := (List.mem_filter.1 hdevice).1
  have hwalk := Program.mem_walk_of_mem_devices hdevice
  obtain ⟨inside, hinside⟩ := Forest.mem_roots.1 hroot
  have hinsideq := (hq.trees _ hinside hfresh).1
  have hfind : q.findIn device "aie.core" = p.findIn device "aie.core" :=
    hq.findIn hp hinside hfresh (.inl rfl) _
  have hbelow := Program.below_of_below? (Forest.below?_of_mem_trees hp.distinct hinside)
  have hflatq : ∀ core ∈ q.findIn device "aie.core", q.findIn core "aie.core" = [] := by
    intro core hcore
    rw [hfind] at hcore
    obtain ⟨hin, hname⟩ := List.mem_filter.1 hcore
    have hinside' := hin
    rw [Program.walkIn, hbelow] at hinside'
    rw [hq.findIn hp hinside hfresh (.inr hinside')]
    exact hflat core (List.mem_filter.2 ⟨hp.mem_walk_of_walkIn hwalk hin, hname⟩)
  obtain ⟨hr, hcores⟩ := lowerDevice_outlines hq.wellFormed hq.live
    (hq.resolves.nodup hvalues hq.wellFormed) (Forest.mem_roots.2 ⟨_, hinsideq⟩) hflatq h
  refine ⟨hq.trans hr, fun d hd core hcore => ?_⟩
  rcases List.mem_append.1 hd with hd | hd
  · exact (hdone d hd core hcore).spares hr (hp.created device hwalk)
  · obtain rfl := List.mem_singleton.1 hd
    exact hq.outlines hp hvalues hroot hfresh (List.mem_filter.1 hcore).1
      (hcores core (hfind ▸ hcore))

/-- Every core of every device becomes a function. -/
theorem lowerCores_outlines (hp : p.WellFormed) (hlive : ∀ id ∈ p.walk, p.isLive id = true)
    (hvalues : p.definedValues.Nodup)
    (hflat : ∀ core ∈ p.findAll "aie.core", p.findIn core "aie.core" = [])
    (h : runOn lowerCores p = (.ok (), q)) :
    q.WellFormed ∧ (∀ id ∈ q.walk, q.isLive id = true) ∧
      ∀ device ∈ p.devices, ∀ core ∈ p.findIn device "aie.core", p.Outlines device core q := by
  rw [lowerCores, get_bind_ok] at h
  obtain ⟨declared, r, hloop, h⟩ := bind_ok.1 h
  obtain ⟨-, rfl⟩ := pure_ok.1 h
  have hnodup : p.devices.Nodup := List.Pairwise.filter _ hp.distinct.nodup_roots
  -- The devices that wait are untouched, and the cores of the others are functions.
  let I := fun (done : List OpId) (_ : List String) (q : Program) => p.Spares done q ∧
    ∀ device ∈ done, ∀ core ∈ p.findIn device "aie.core", p.Outlines device core q
  have hend : I p.devices declared r := by
    refine foldlM_prefix hnodup hloop ⟨.refl hp hlive, fun _ hd => nomatch hd⟩ ?_
    rintro device hdevice done hfresh _ _ q s ⟨hq, hdone⟩ hstep
    exact lowerDevice_step hp hvalues hflat hq hdone hdevice hfresh hstep
  exact ⟨hend.1.wellFormed, hend.1.live, hend.2⟩

end TileFlow
