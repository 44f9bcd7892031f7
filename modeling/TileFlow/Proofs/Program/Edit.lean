import Mathlib.Data.List.Nodup
import Mathlib.Data.List.Perm.Subperm
import Mathlib.Order.Nat
import TileFlow.Program.Basic
import TileFlow.Program.Edit
import TileFlow.Proofs.Forest.Edit

/-!
# Edits of programs

A program is well formed when its body has every operation once and only operations that were
created. What each edit does is told by its body, as an edit of a forest, and by its slots, of
which an edit changes few.

An operation that is created may define a value, which is named after a base. If the base is in
use, its variants are tried one after the other, from the first one on, until one is not in use.
Nothing in the search bounds how many variants it tries. It ends all the same: the variants are
different from each other and from the base, so that no more of them are in use than there are names
in use. What it ends at is the first variant that is free, whatever the order of the names in use.

## Main definitions

* `Program.IsFree`: the names of values that no operation of the body defines.
* `Program.SearchEnds`: the search through the variants of a base, as steps from number to number.
* `Program.Chooses`: the base if it is free, and otherwise the variant at which the search ends.

## Main results

* `Program.WellFormed`: the programs that edits are described for.
* `Program.body_insertAt_none`, `Program.body_erase`, `Program.body_moveTo`: the bodies.
* `Program.slot_insertAt_none`, `Program.slot_erase`, `Program.slot_moveTo_of_ne`: the slots.
* `Program.searchEnds_iff_isLeast`: a search ends at the least number that is free.
* `Program.chooses_iff`: one name is chosen after a base.
* `Program.freshName_notMem`, `Program.freshValue_notMem`: a new name is new.
* `Program.freshValue_isFirstFree`: for every program and every base, the search ends, and the name
  of a new value is the base or its first variant that is free.
-/

namespace TileFlow.Program

variable {p : Program} {id j : OpId} {op : Operation}

/-- A program whose body has no operation twice and none that was not created. -/
structure WellFormed (p : Program) : Prop where
  distinct : p.body.Distinct
  created : ∀ id ∈ p.walk, id < p.slots.size

/-- The program of a forest is well-formed. -/
theorem wellFormed_ofForest (attributes : Dictionary) (ops : Forest Operation) :
    (ofForest attributes ops).WellFormed := by
  constructor
  · rw [Forest.Distinct, ofForest, Forest.preorder_number]
    exact List.nodup_range'
  · intro id hid
    rw [walk, ofForest, Forest.preorder_number, List.mem_range'_1] at hid
    simpa [ofForest] using hid.2

/-! ### Slots -/

/-- The operation at an identity depends on its slot. -/
theorem op_congr {q : Program} (h : q.slots[id]? = p.slots[id]?) : q.op id = p.op id := by
  rw [op, h, op]

/-- Whether an operation is live depends on its own entry. -/
theorem isLive_congr {q : Program} (h : q.slots[id]? = p.slots[id]?) :
    q.isLive id = p.isLive id := by
  rw [isLive, h, isLive]

/-- A change of an operation leaves the body alone. -/
@[simp] theorem body_modify (p : Program) (id : OpId) (f : Operation → Operation) :
    (p.modify id f).body = p.body := rfl

/-- A change of an operation creates none. -/
@[simp] theorem size_modify (p : Program) (id : OpId) (f : Operation → Operation) :
    (p.modify id f).slots.size = p.slots.size := by
  simp [modify]

/-- A change of an operation leaves the entries of all others alone. -/
theorem slot_modify_of_ne (h : j ≠ id) (f : Operation → Operation) :
    (p.modify id f).slots[j]? = p.slots[j]? := by
  rw [modify, Array.getElem?_modify, if_neg (Ne.symm h)]

/-- After a change an operation is the changed one. -/
theorem op_modify_self (h : id < p.slots.size) (f : Operation → Operation) :
    (p.modify id f).op id = f (p.op id) := by
  rw [op, modify, Array.getElem?_modify, if_pos rfl, op, Array.getElem?_eq_getElem h]
  rfl

/-- A change of an operation leaves all live ones live. -/
theorem isLive_modify (id j : OpId) (f : Operation → Operation) :
    (p.modify id f).isLive j = p.isLive j := by
  rw [isLive, modify, Array.getElem?_modify, isLive]
  split
  · cases p.slots[j]? <;> rfl
  · rfl

/-- An operation that receives a block owns a region. -/
theorem slots_updateBlock_some (p : Program) (id : OpId) (k : Forest OpId → Forest OpId) :
    (p.updateBlock (some id) k).slots =
      (p.modify id fun op => { op with hasRegion := true }).slots := rfl

/-- A change of what is below an operation leaves the entries of all others alone. -/
theorem slot_updateBlock_of_ne (h : j ≠ id) (k : Forest OpId → Forest OpId) :
    (p.updateBlock (some id) k).slots[j]? = p.slots[j]? := by
  rw [slots_updateBlock_some, slot_modify_of_ne h]

/-- An operation below which something changes owns a region. -/
theorem op_updateBlock_self (h : id < p.slots.size) (k : Forest OpId → Forest OpId) :
    (p.updateBlock (some id) k).op id = { p.op id with hasRegion := true } := by
  have := op_modify_self h fun op => { op with hasRegion := true }
  rwa [op, ← slots_updateBlock_some p id k] at this

/-! ### Creation -/

/-- At the top a new operation is put among the trees of the body. -/
theorem body_insertAt_none (p : Program) (i : Nat) (op : Operation) :
    (p.insertAt none i op).2.body = p.body.insertAt i p.slots.size .nil := rfl

/-- Below an operation a new one is put among the trees there. -/
theorem body_insertAt_some (p : Program) (i : Nat) (op : Operation) :
    (p.insertAt (some id) i op).2.body =
      p.body.update id (·.insertAt i p.slots.size .nil) := rfl

/-- A creation adds one operation. -/
@[simp] theorem size_insertAt (p : Program) (parent : Option OpId) (i : Nat) (op : Operation) :
    (p.insertAt parent i op).2.slots.size = p.slots.size + 1 := by
  cases parent <;> simp [insertAt, updateBlock]

/-- The identity of a new operation is the number of those before. -/
@[simp] theorem fst_insertAt (p : Program) (parent : Option OpId) (i : Nat) (op : Operation) :
    (p.insertAt parent i op).1 = p.slots.size := rfl

/-- The entry of an operation that was created at the top. -/
theorem slot_insertAt_new (p : Program) (i : Nat) (op : Operation) :
    (p.insertAt none i op).2.slots[p.slots.size]? = some { op } := by
  simp [insertAt, updateBlock]

/-- A creation at the top leaves the entries of before alone. -/
theorem slot_insertAt_none (h : j < p.slots.size) (i : Nat) (op : Operation) :
    (p.insertAt none i op).2.slots[j]? = p.slots[j]? := by
  simp [insertAt, updateBlock, Array.getElem?_push, Nat.ne_of_lt h]

/-- The entry of an operation that was created below another. -/
theorem slot_insertAt_some_new (hid : id ≠ p.slots.size) (i : Nat) (op : Operation) :
    (p.insertAt (some id) i op).2.slots[p.slots.size]? = some { op } := by
  rw [insertAt, slot_updateBlock_of_ne (Ne.symm hid)]
  simp

/-- A creation below an operation leaves the entries of all others alone. -/
theorem slot_insertAt_some (hid : j ≠ id) (h : j < p.slots.size) (i : Nat) (op : Operation) :
    (p.insertAt (some id) i op).2.slots[j]? = p.slots[j]? := by
  rw [insertAt, slot_updateBlock_of_ne hid]
  simp [Array.getElem?_push, Nat.ne_of_lt h]

/-- An operation that receives another one owns a region and stays the same otherwise. -/
theorem op_insertAt_parent (h : id < p.slots.size) (i : Nat) (op : Operation) :
    (p.insertAt (some id) i op).2.op id = { p.op id with hasRegion := true } := by
  have hop : Program.op { p with slots := p.slots.push { op } } id = p.op id :=
    op_congr (by simp [Array.getElem?_push, Nat.ne_of_lt h])
  rw [insertAt, op_updateBlock_self (by simpa using Nat.lt_succ_of_lt h), hop]

/-! ### Removal -/

/-- The body after an erasure lacks the tree of the operation. -/
@[simp] theorem body_erase (p : Program) (id : OpId) :
    (p.erase id).body = p.body.remove id := rfl

/-- Erasure marks an operation and those below it. -/
theorem slot_markErased (p : Program) (ids : List OpId) (j : OpId) :
    (p.markErased ids).slots[j]? =
      if j ∈ ids then p.slots[j]?.map ({ · with erased := true }) else p.slots[j]? := by
  have hfold : ∀ (ids : List OpId) (slots : Array Slot),
      (ids.foldl (fun slots id => slots.modify id ({ · with erased := true })) slots)[j]? =
        if j ∈ ids then slots[j]?.map ({ · with erased := true }) else slots[j]? := by
    intro ids
    induction ids with
    | nil => intro slots; simp
    | cons a ids ih =>
        intro slots
        rw [List.foldl_cons, ih, Array.getElem?_modify]
        by_cases ha : a = j
        · subst ha
          by_cases hmem : a ∈ ids
          · cases slots[a]? <;> simp [hmem]
          · simp [hmem]
        · simp [ha, Ne.symm ha]
  exact hfold ids p.slots

/-- The entries after an erasure: the operation and all below it are marked. -/
theorem slot_erase (p : Program) (id j : OpId) :
    (p.erase id).slots[j]? =
      if j = id ∨ j ∈ p.walkIn id then p.slots[j]?.map ({ · with erased := true })
      else p.slots[j]? := by
  rw [erase, slot_markErased]
  simp only [List.mem_cons]
  rfl

/-- Marking operations as erased keeps their number. -/
@[simp] theorem size_markErased (p : Program) (ids : List OpId) :
    (p.markErased ids).slots.size = p.slots.size := by
  have hfold : ∀ (ids : List OpId) (slots : Array Slot),
      (ids.foldl (fun slots id => slots.modify id ({ · with erased := true })) slots).size =
        slots.size := by
    intro ids
    induction ids with
    | nil => intro slots; rfl
    | cons a ids ih => intro slots; rw [List.foldl_cons, ih, Array.size_modify]
  exact hfold ids p.slots

/-- An erasure keeps the number of entries. -/
@[simp] theorem size_erase (p : Program) (id : OpId) :
    (p.erase id).slots.size = p.slots.size :=
  size_markErased _ _

/-- Marking operations as erased leaves their contents alone. -/
theorem op_markErased (p : Program) (ids : List OpId) (j : OpId) :
    (p.markErased ids).op j = p.op j := by
  rw [op, slot_markErased, op]
  split
  · cases p.slots[j]? <;> rfl
  · rfl

/-- Erasure changes no operation, and only tells that some are gone. -/
@[simp] theorem op_erase (p : Program) (id j : OpId) : (p.erase id).op j = p.op j :=
  op_markErased _ _ j

/-- What stays live is what was live and is neither erased nor below what is. -/
theorem isLive_erase (p : Program) (id j : OpId) :
    (p.erase id).isLive j = true ↔ p.isLive j = true ∧ j ≠ id ∧ j ∉ p.walkIn id := by
  rw [isLive, slot_erase, isLive]
  split
  · rename_i h
    rw [← not_or]
    cases p.slots[j]? <;> simp [h]
  · rename_i h
    rw [← not_or]
    simp [h]

/-! ### Moves -/

/-- The body after a move has the tree behind the children of its new parent. -/
theorem body_moveTo (p : Program) (id parent : OpId) :
    (p.moveTo id (some parent)).body =
      (p.body.remove id).update parent (· ++ .single id (p.below id)) := rfl

/-- A move leaves the entries of all but the new parent alone. -/
theorem slot_moveTo_of_ne {parent : OpId} (h : j ≠ parent) :
    (p.moveTo id (some parent)).slots[j]? = p.slots[j]? := by
  rw [moveTo, slot_updateBlock_of_ne h]
  rfl

/-- The new parent owns a region after a move. -/
theorem op_moveTo_parent {parent : OpId} (h : parent < p.slots.size) :
    (p.moveTo id (some parent)).op parent = { p.op parent with hasRegion := true } :=
  op_updateBlock_self (p := p.remove id) h _

/-- A move keeps the number of entries. -/
@[simp] theorem size_moveTo (p : Program) (id parent : OpId) :
    (p.moveTo id (some parent)).slots.size = p.slots.size := by
  rw [moveTo, slots_updateBlock_some, size_modify]
  rfl

/-- A move leaves all live operations live. -/
theorem isLive_moveTo (p : Program) (id parent j : OpId) :
    (p.moveTo id (some parent)).isLive j = p.isLive j := by
  rw [isLive, moveTo, slots_updateBlock_some]
  exact isLive_modify (p := p.remove id) parent j _

/-! ### Well-formed programs -/

/-- The identity of the next operation is not in use. -/
theorem WellFormed.notMem_walk (hp : p.WellFormed) : p.slots.size ∉ p.walk :=
  fun h => Nat.lt_irrefl _ (hp.created _ h)

/-- An erasure leaves a program well-formed. -/
theorem WellFormed.erase (hp : p.WellFormed) (id : OpId) : (p.erase id).WellFormed where
  distinct := hp.distinct.remove id
  created j hj := by
    rw [size_erase]
    exact hp.created j (Forest.mem_preorder_of_remove hp.distinct hj)

/-- A creation at the top leaves a program well-formed. -/
theorem WellFormed.insertAt_none (hp : p.WellFormed) (i : Nat) (op : Operation) :
    (p.insertAt none i op).2.WellFormed where
  distinct := hp.distinct.insertAt Forest.distinct_nil hp.notMem_walk (by simp) (by simp) i
  created j hj := by
    rw [size_insertAt]
    rcases Forest.mem_preorder_insertAt.1 hj with rfl | hj | hj
    · exact Nat.lt_succ_self _
    · cases hj
    · exact Nat.lt_succ_of_lt (hp.created j hj)

/-- The new operation is the only one that a creation at the top adds to the body. -/
theorem mem_walk_insertAt_none {i : Nat} {op : Operation} :
    j ∈ (p.insertAt none i op).2.walk ↔ j = p.slots.size ∨ j ∈ p.walk := by
  rw [walk, body_insertAt_none, Forest.mem_preorder_insertAt]
  simp [walk]

/-- The new operation is the only one that a creation within the body adds to it. -/
theorem mem_walk_insertAt_some (hp : p.WellFormed) (hid : id ∈ p.walk) {i : Nat}
    {op : Operation} :
    j ∈ (p.insertAt (some id) i op).2.walk ↔ j = p.slots.size ∨ j ∈ p.walk := by
  obtain ⟨g, hg⟩ := Forest.mem_preorder_iff.1 hid
  rw [walk, body_insertAt_some, Forest.mem_preorder_update_insertAt hp.distinct hg, walk]

/-- A creation within the body leaves a program well-formed. -/
theorem WellFormed.insertAt_some (hp : p.WellFormed) (hid : id ∈ p.walk) (i : Nat)
    (op : Operation) : (p.insertAt (some id) i op).2.WellFormed where
  distinct := by
    obtain ⟨g, hg⟩ := Forest.mem_preorder_iff.1 hid
    exact hp.distinct.update_insertAt hg hp.notMem_walk i
  created j hj := by
    rw [size_insertAt]
    rcases (mem_walk_insertAt_some hp hid).1 hj with rfl | hj
    · exact Nat.lt_succ_self _
    · exact Nat.lt_succ_of_lt (hp.created j hj)

/-- What is below an operation of the body is found in the body. -/
theorem below_of_below? {g : Forest OpId} (h : p.body.below? id = some g) : p.below id = g := by
  rw [below, h]
  rfl

/-- What is below an operation of the body is in the body. -/
theorem WellFormed.mem_walk_of_walkIn (hp : p.WellFormed) (hid : id ∈ p.walk)
    (hj : j ∈ p.walkIn id) : j ∈ p.walk := by
  obtain ⟨g, hg⟩ := Forest.mem_preorder_iff.1 hid
  rw [walkIn, below, hg] at hj
  exact (hp.distinct.below hg).2.2 j hj

/-- What is below an operation that is below another is below this one too. -/
theorem WellFormed.walkIn_trans (hp : p.WellFormed) {a b c : OpId} (ha : a ∈ p.walk)
    (hb : b ∈ p.walkIn a) (hc : c ∈ p.walkIn b) : c ∈ p.walkIn a := by
  obtain ⟨g, hg⟩ := Forest.mem_preorder_iff.1 ha
  rw [walkIn, below_of_below? hg] at hb ⊢
  obtain ⟨h, hh⟩ := Forest.mem_preorder_iff.1 hb
  rw [walkIn, below_of_below? (Forest.below?_trans hp.distinct hg hh)] at hc
  exact ((hp.distinct.below hg).1.below hh).2.2 c hc

/-- An operation is not below itself. -/
theorem WellFormed.notMem_walkIn_self (hp : p.WellFormed) (hid : id ∈ p.walk) :
    id ∉ p.walkIn id := by
  obtain ⟨g, hg⟩ := Forest.mem_preorder_iff.1 hid
  rw [walkIn, below_of_below? hg]
  exact (hp.distinct.below hg).2.1

/-- No operation is below another one twice. -/
theorem WellFormed.nodup_walkIn (hp : p.WellFormed) (hid : id ∈ p.walk) : (p.walkIn id).Nodup := by
  obtain ⟨g, hg⟩ := Forest.mem_preorder_iff.1 hid
  rw [walkIn, below_of_below? hg]
  exact (hp.distinct.below hg).1

/-- No operation is found twice. -/
theorem WellFormed.nodup_findIn (hp : p.WellFormed) (hid : id ∈ p.walk) (name : String) :
    (p.findIn id name).Nodup :=
  List.Pairwise.filter _ (hp.nodup_walkIn hid)

/-- An operation at the top is part of the body. -/
theorem mem_walk_of_mem_roots (h : id ∈ p.body.roots) : id ∈ p.walk :=
  Forest.mem_preorder_of_mem_roots h

/-- A device is part of the body. -/
theorem mem_walk_of_mem_devices (h : id ∈ p.devices) : id ∈ p.walk :=
  Forest.mem_preorder_of_mem_roots (List.mem_filter.1 h).1

/-! ### Lookups -/

/-- An operation at the top has a place there. -/
theorem locate?_of_mem_roots (hp : p.WellFormed) (h : id ∈ p.body.roots) :
    ∃ i, p.locate? id = some (none, i) := by
  have hroot : ∃ i, p.body.locateFrom? id none 0 = some (none, i) :=
    Forest.locateFrom?_of_mem_roots hp.distinct h
  obtain ⟨i, hi⟩ := hroot
  exact ⟨i, by rw [locate?, Forest.locate?, hi, Option.some_or]⟩

/-- An operation that is put before one at the top is at the top itself. -/
theorem insertBefore_of_mem_roots (hp : p.WellFormed) (h : id ∈ p.body.roots) (op : Operation) :
    ∃ i, p.insertBefore id op = p.insertAt none i op := by
  obtain ⟨i, hi⟩ := locate?_of_mem_roots hp h
  exact ⟨i, by rw [insertBefore, hi]⟩

/-! ### Variants of a name -/

variable {taken : List String} {base name : String} {m n : Nat}

/-- The variants of a name are different from each other. -/
theorem numbered_injective (base : String) : Function.Injective (numbered base) := by
  intro m n h
  rw [numbered, numbered] at h
  have hchars := congrArg String.toList h
  simp only [String.toList_append] at hchars
  have hdigits : Nat.toDigits 10 m = Nat.toDigits 10 n := by
    rw [← Nat.toList_repr, ← Nat.toList_repr]
    exact List.append_cancel_left hchars
  rw [← Nat.ofDigitChars_ten_toDigits (n := m), hdigits, Nat.ofDigitChars_ten_toDigits]

/-- The variants of a name are different from the name. -/
theorem numbered_ne (base : String) (n : Nat) : numbered base n ≠ base := by
  intro h
  have hlength := congrArg String.length h
  rw [numbered, String.length_append, String.length_append] at hlength
  have : "_".length = 1 := rfl
  omega

/-- If a base and its variants before a number are all in use, that number is at most the number of
names in use. -/
theorem le_length_of_variants_mem (hbase : base ∈ taken)
    (h : ∀ m, 1 ≤ m → m < n → numbered base m ∈ taken) : n ≤ taken.length := by
  have hnew : base ∉ (List.range' 1 (n - 1)).map (numbered base) := fun hmem => by
    obtain ⟨m, -, hm⟩ := List.mem_map.1 hmem
    exact numbered_ne base m hm
  have hnodup : ((List.range' 1 (n - 1)).map (numbered base)).Nodup :=
    List.Nodup.map (numbered_injective base) List.nodup_range'
  have hsubset : base :: (List.range' 1 (n - 1)).map (numbered base) ⊆ taken := by
    refine List.cons_subset.2 ⟨hbase, fun name hname => ?_⟩
    obtain ⟨m, hm, rfl⟩ := List.mem_map.1 hname
    rw [List.mem_range'_1] at hm
    exact h m hm.1 (by omega)
  have hlength := (List.subperm_of_subset (List.nodup_cons.2 ⟨hnew, hnodup⟩) hsubset).length_le
  rw [List.length_cons, List.length_map, List.length_range'] at hlength
  omega

/-- The numbers from `m` on whose variants are not in use. -/
def freeFrom (taken : List String) (base : String) (m : Nat) : Set Nat :=
  {k | m ≤ k ∧ numbered base k ∉ taken}

/-- The numbers before the first one that is free are in use. -/
theorem mem_of_lt_isLeast (h : IsLeast (freeFrom taken base m) n) {k : Nat} (hle : m ≤ k)
    (hlt : k < n) : numbered base k ∈ taken :=
  by_contra fun hfree => absurd (h.2 ⟨hle, hfree⟩) (Nat.not_le.2 hlt)

/-- A variant of a base that is in use is free, so that there is a first one. -/
theorem exists_isLeast_freeFrom (hbase : base ∈ taken) :
    ∃ n, IsLeast (freeFrom taken base 1) n := by
  have hex : ∃ k, 1 ≤ k ∧ numbered base k ∉ taken := by
    by_contra hnone
    have hall : ∀ m, 1 ≤ m → m < taken.length + 1 → numbered base m ∈ taken := fun m hm _ =>
      by_contra fun hfree => hnone ⟨m, hm, hfree⟩
    exact absurd (le_length_of_variants_mem hbase hall) (by omega)
  exact ⟨Nat.find hex, Nat.isLeast_find hex⟩

/-- The first variant that is free has no higher number than there are names in use. -/
theorem le_length_of_isLeast (hbase : base ∈ taken) (h : IsLeast (freeFrom taken base 1) n) :
    n ≤ taken.length :=
  le_length_of_variants_mem hbase fun _ => mem_of_lt_isLeast h

/-! ### The search for a free variant -/

/-- The search through the variants of a base from a number on ends at a number: it stops at a
variant that is not in use, and goes on to the next number from one that is. -/
inductive SearchEnds (taken : List String) (base : String) : Nat → Nat → Prop
  | stop {n : Nat} (h : numbered base n ∉ taken) : SearchEnds taken base n n
  | next {m n : Nat} (h : numbered base m ∈ taken) (rest : SearchEnds taken base (m + 1) n) :
    SearchEnds taken base m n

/-- A step of the search passes over no number that is free. -/
theorem freeFrom_succ (h : numbered base m ∈ taken) :
    freeFrom taken base (m + 1) = freeFrom taken base m := by
  refine Set.ext fun k => and_congr_left fun hfree => ⟨Nat.le_of_succ_le, fun hle => ?_⟩
  refine Nat.lt_of_le_of_ne hle ?_
  rintro rfl
  exact hfree h

/-- A search ends at the least number that is free, and at no other one. -/
theorem searchEnds_iff_isLeast :
    SearchEnds taken base m n ↔ IsLeast (freeFrom taken base m) n := by
  constructor
  · intro h
    induction h with
    | stop h => exact ⟨⟨le_rfl, h⟩, fun k hk => hk.1⟩
    | next h _ ih => exact freeFrom_succ h ▸ ih
  · intro h
    -- The induction goes down from where the search ends: up to there, all numbers are in use.
    induction h.1.1 using Nat.decreasingInduction with
    | self => exact .stop h.1.2
    | of_succ m hlt ih =>
        have hm : numbered base m ∈ taken := mem_of_lt_isLeast h le_rfl hlt
        exact .next hm (ih (freeFrom_succ hm ▸ h))

/-! ### The choice of a name -/

/-- The name that is chosen after a base: the base itself if it is not in use, and otherwise the
variant at which the search from the first variant on ends. -/
inductive Chooses (taken : List String) (base : String) : String → Prop
  | base (h : base ∉ taken) : Chooses taken base base
  | variant {n : Nat} (h : base ∈ taken) (search : SearchEnds taken base 1 n) :
    Chooses taken base (numbered base n)

/-- A chosen name is not taken. -/
theorem Chooses.notMem (h : Chooses taken base name) : name ∉ taken := by
  cases h with
  | base h => exact h
  | variant _ search => exact (searchEnds_iff_isLeast.1 search).1.2

/-- As many variants as there are names in use, and one more, are enough to find the first one that
is free. -/
theorem freshName_of_isLeast (hbase : base ∈ taken) (h : IsLeast (freeFrom taken base 1) n) :
    freshName taken base = numbered base n := by
  have hn : n ≤ taken.length := le_length_of_isLeast hbase h
  obtain ⟨i, rfl⟩ : ∃ i, n = i + 1 := ⟨n - 1, (Nat.succ_pred_eq_of_pos h.1.1).symm⟩
  have hfind : (List.range (taken.length + 1)).find?
      (fun k => decide (numbered base (k + 1) ∉ taken)) = some i := by
    refine List.find?_range_eq_some.2
      ⟨by simpa using h.1.2, List.mem_range.2 (by omega), fun k hk => ?_⟩
    simpa using mem_of_lt_isLeast h (Nat.le_add_left 1 k) (Nat.succ_lt_succ hk)
  rw [freshName, if_pos hbase, List.find?_map]
  exact congrArg (fun found => (found.map fun k => numbered base (k + 1)).getD base) hfind

/-- After every base a name is chosen, no matter what is in use, and no other one. -/
theorem chooses_iff : Chooses taken base name ↔ name = freshName taken base := by
  constructor
  · intro h
    cases h with
    | base h => exact (if_neg h).symm
    | variant h search => exact (freshName_of_isLeast h (searchEnds_iff_isLeast.1 search)).symm
  · rintro rfl
    by_cases hbase : base ∈ taken
    · obtain ⟨n, hleast⟩ := exists_isLeast_freeFrom hbase
      rw [freshName_of_isLeast hbase hleast]
      exact .variant hbase (searchEnds_iff_isLeast.2 hleast)
    · rw [freshName, if_neg hbase]
      exact .base hbase

/-- A fresh name is not taken. -/
theorem freshName_notMem (taken : List String) (base : String) : freshName taken base ∉ taken :=
  (chooses_iff.2 rfl).notMem

/-- A name that is chosen after a base is the base or one of its variants. -/
theorem freshName_eq_or (taken : List String) (base : String) :
    freshName taken base = base ∨ ∃ n, freshName taken base = numbered base n := by
  have hchooses : Chooses taken base (freshName taken base) := chooses_iff.2 rfl
  generalize freshName taken base = name at hchooses
  cases hchooses with
  | base => exact .inl rfl
  | @variant n => exact .inr ⟨n, rfl⟩

/-! ### Fresh values -/

/-- The value that is chosen for a new operation is not one of the program. -/
theorem freshValue_notMem (p : Program) (base : String) : p.freshValue base ∉ p.definedValues :=
  freshName_notMem _ _

/-- A name that is the result of no operation of the body. -/
def IsFree (p : Program) (name : String) : Prop :=
  ∀ id ∈ p.walk, (p.op id).result ≠ some name

/-- A name is free when no operation of the body defines it. -/
theorem isFree_iff : p.IsFree name ↔ name ∉ p.definedValues := by
  simp [IsFree, definedValues]

/-- For every program and every base, the search for the name of a new value ends, and at one name
only. No operation of the body defines that name. It is the base if that is free, and otherwise the
first variant that is free, so that no number above the count of the values is ever tried. -/
theorem freshValue_isFirstFree (p : Program) (base : String) :
    (∀ name, Chooses p.definedValues base name ↔ name = p.freshValue base) ∧
      p.IsFree (p.freshValue base) ∧
      (p.IsFree base ∧ p.freshValue base = base ∨
        ¬p.IsFree base ∧ ∃ n ≤ p.definedValues.length,
          IsLeast {k | 1 ≤ k ∧ p.IsFree (numbered base k)} n ∧
            p.freshValue base = numbered base n) := by
  simp only [isFree_iff, not_not]
  refine ⟨fun name => chooses_iff, p.freshValue_notMem base, ?_⟩
  by_cases hbase : base ∈ p.definedValues
  · obtain ⟨n, hleast⟩ := exists_isLeast_freeFrom hbase
    exact .inr ⟨hbase, n, le_length_of_isLeast hbase hleast, hleast,
      freshName_of_isLeast hbase hleast⟩
  · exact .inl ⟨hbase, if_neg hbase⟩

-- Neither the order of the names in use nor a name that is there twice matters.
example : freshName ["t_3", "t", "t_1", "t_1"] "t" = "t_2" := by decide

end TileFlow.Program
