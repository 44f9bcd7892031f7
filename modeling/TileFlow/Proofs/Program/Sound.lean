import TileFlow.Proofs.Forest.Place
import TileFlow.Proofs.Program.Leaf

/-!
# Trees set aside

A program is sound when it is well formed and the trees that were cut out of its body have no
operation in common with it. The edits keep programs sound, whether they work on the body or on a
tree set aside; of an edit on a tree set aside, the body shows nothing.

## Main results

* `Program.Sound`: a well-formed program with trees set aside.
* `Program.created_insertAt`: an operation that is created anywhere.
* `Program.cut_erase`: a tree that is erased, wherever it is.
* `Program.insertBefore_within`: the place before an operation of a device.
-/

namespace TileFlow

/-- The operations of a tree set aside. -/
def Detached.ids (t : Detached) : List OpId :=
  t.root :: t.children.preorder

namespace Program

variable {p q r : Program} {id a b x device : OpId} {parent : Option OpId} {op : Operation}

/-- A well-formed program whose trees set aside are apart from the body. -/
structure Sound (p : Program) : Prop extends p.WellFormed where
  aside : ∀ t ∈ p.detached, ∀ id ∈ t.ids, id < p.slots.size ∧ id ∉ p.walk

/-- The program of a forest is sound. -/
theorem sound_ofForest (attributes : Dictionary) (ops : Forest Operation) :
    (ofForest attributes ops).Sound :=
  ⟨wellFormed_ofForest attributes ops, fun t ht => by cases ht⟩

/-! ### Operations of the body -/

/-- Below an operation of the body is a forest that is found in the body. -/
theorem exists_below (ha : a ∈ p.walk) : ∃ g, p.body.below? a = some g ∧ p.below a = g := by
  obtain ⟨g, hg⟩ := Forest.mem_preorder_iff.1 ha
  exact ⟨g, hg, below_of_below? hg⟩

/-- What is below an operation outside the body belongs to a tree set aside. -/
theorem exists_aside (ha : a ∉ p.walk) (hid : id ∈ p.walkIn a) : ∃ t ∈ p.detached, id ∈ t.ids := by
  rw [walkIn, below, Forest.below?_eq_none_iff.2 ha, Option.none_or] at hid
  rcases hfind : p.detached.findSome? (·.below? a) with _ | g
  · rw [hfind] at hid
    cases hid
  · rw [hfind, Option.getD_some] at hid
    obtain ⟨t, ht, hbelow⟩ := List.exists_of_findSome?_eq_some hfind
    refine ⟨t, ht, List.mem_cons_of_mem _ ?_⟩
    rw [Detached.below?] at hbelow
    split at hbelow
    · cases hbelow
      exact hid
    · exact Forest.mem_preorder_of_mem_below? hbelow hid

/-- What is below an operation outside the body is outside the body. -/
theorem Sound.notMem_walk_of_walkIn (hp : p.Sound) (ha : a ∉ p.walk) (hid : id ∈ p.walkIn a) :
    id ∉ p.walk := by
  obtain ⟨t, ht, hmem⟩ := exists_aside ha hid
  exact (hp.aside t ht id hmem).2

/-- What is below an operation was created. -/
theorem Sound.lt_size_of_walkIn (hp : p.Sound) (hid : id ∈ p.walkIn a) : id < p.slots.size := by
  by_cases ha : a ∈ p.walk
  · exact hp.created id (hp.toWellFormed.mem_walk_of_walkIn ha hid)
  · obtain ⟨t, ht, hmem⟩ := exists_aside ha hid
    exact (hp.aside t ht id hmem).1

/-- What holds an operation of the body below it is part of the body. -/
theorem Sound.mem_walk_of_below (hp : p.Sound) (hid : id ∈ p.walkIn a) (hwalk : id ∈ p.walk) :
    a ∈ p.walk :=
  Classical.byContradiction fun ha => hp.notMem_walk_of_walkIn ha hid hwalk

/-! ### Changes -/

/-- A change of an operation leaves the walk alone. -/
@[simp] theorem walk_modify (p : Program) (id : OpId) (f : Operation → Operation) :
    (p.modify id f).walk = p.walk := rfl

/-- A change of an operation leaves alone what is below operations. -/
@[simp] theorem walkIn_modify (p : Program) (id a : OpId) (f : Operation → Operation) :
    (p.modify id f).walkIn a = p.walkIn a := rfl

/-- A change of an operation leaves a program sound. -/
theorem Sound.modify (hp : p.Sound) (id : OpId) (f : Operation → Operation) :
    (p.modify id f).Sound where
  distinct := hp.distinct
  created j hj := by
    rw [size_modify]
    exact hp.created j hj
  aside t ht j hj := by
    rw [size_modify]
    exact hp.aside t ht j hj

/-- A change of an operation leaves all others as they are. -/
theorem op_modify_of_ne (h : b ≠ id) (f : Operation → Operation) :
    (p.modify id f).op b = p.op b :=
  op_congr (slot_modify_of_ne h f)

/-- What holds of an operation after a change in place held before, if it did of the changed one. -/
theorem of_op_modify {K : Operation → Prop} {f : Operation → Operation} (ha : a < p.slots.size)
    (h : K (f (p.op a)) → K (p.op a)) (hid : K ((p.modify a f).op id)) : K (p.op id) := by
  by_cases hida : id = a
  · subst hida
    rw [op_modify_self ha] at hid
    exact h hid
  · rwa [op_modify_of_ne hida] at hid

/-! ### Creation -/

/-- Whether a place is in the body. -/
def Holds (p : Program) (parent : Option OpId) : Prop :=
  ∀ a, parent = some a → a ∈ p.walk

/-- A program with a new operation at a place, be it in the body or not. -/
structure Created (p : Program) (parent : Option OpId) (op : Operation) (q : Program) : Prop where
  sound : q.Sound
  size : q.slots.size = p.slots.size + 1
  new : p.Holds parent → q.op p.slots.size = op
  header : op.SameHeader (q.op p.slots.size)
  old : ∀ id < p.slots.size, (p.op id).SameHeader (q.op id)
  walk : ∀ id, id ∈ q.walk ↔ id ∈ p.walk ∨ (id = p.slots.size ∧ p.Holds parent)
  walkIn : ∀ a ∈ p.walk, ∀ id, id ∈ q.walkIn a ↔ id ∈ p.walkIn a ∨
    (id = p.slots.size ∧ ∃ b, parent = some b ∧ (b = a ∨ b ∈ p.walkIn a))
  leaf : p.Holds parent → q.walkIn p.slots.size = []
  roots : ∀ id, id ∈ q.body.roots ↔ id ∈ p.body.roots ∨ (parent = none ∧ id = p.slots.size)

/-- A creation below an operation is one in the tree set aside that holds it. -/
theorem detached_insertAt_some (p : Program) (a : OpId) (i : Nat) (op : Operation) :
    (p.insertAt (some a) i op).2.detached = p.detached.map fun d =>
      { d with children :=
          if d.root = a then d.children.insertAt i p.slots.size .nil
          else d.children.update a (·.insertAt i p.slots.size .nil) } := rfl

/-- The operations of a tree set aside after a creation: those of before, and perhaps the new
one. -/
theorem mem_ids_insertAt {i : Nat} {t : Detached}
    (ht : t ∈ (p.insertAt (some a) i op).2.detached) :
    ∃ d ∈ p.detached, (∀ id ∈ t.ids, id = p.slots.size ∨ id ∈ d.ids) ∧
      (a ∉ d.ids → t.ids = d.ids) := by
  rw [detached_insertAt_some, List.mem_map] at ht
  obtain ⟨d, hd, rfl⟩ := ht
  refine ⟨d, hd, fun id hid => ?_, fun ha => ?_⟩
  · rw [Detached.ids, List.mem_cons] at hid ⊢
    rcases hid with rfl | hid
    · exact .inr (.inl rfl)
    · dsimp only at hid
      split at hid
      · rcases Forest.mem_preorder_insertAt.1 hid with h | h | h
        · exact .inl h
        · cases h
        · exact .inr (.inr h)
      · exact (Forest.mem_preorder_of_mem_update hid).imp_right .inr
  · rw [Detached.ids, List.mem_cons, not_or] at ha
    rw [Detached.ids, Detached.ids, if_neg (Ne.symm ha.1), Forest.update_eq_self ha.2]

/-- A creation at the top is one that has its place there. -/
theorem created_insertAt_none (hp : p.Sound) (i : Nat) (op : Operation) :
    p.Created none op (p.insertAt none i op).2 where
  sound :=
    { hp.insertAt_none i op with
      aside := fun t ht id hid => by
        obtain ⟨hlt, hnot⟩ := hp.aside t ht id hid
        rw [size_insertAt, mem_walk_insertAt_none]
        refine ⟨Nat.lt_succ_of_lt hlt, fun h => ?_⟩
        rcases h with rfl | h
        · exact Nat.lt_irrefl _ hlt
        · exact hnot h }
  size := size_insertAt p none i op
  new _ := by
    rw [Program.op, slot_insertAt_new]
    rfl
  header := by
    rw [Program.op, slot_insertAt_new]
    exact .refl op
  old id hid := by
    rw [op_congr (slot_insertAt_none hid i op)]
    exact .refl _
  walk id := by
    rw [mem_walk_insertAt_none]
    simp [Holds, or_comm]
  walkIn a ha id := by
    have hne := Nat.ne_of_lt (hp.created a ha)
    obtain ⟨g, hg, hbelow⟩ := exists_below ha
    have hnew : (p.insertAt none i op).2.body.below? a = some g := by
      rw [body_insertAt_none, Forest.below?_insertAt hne (by simp), hg]
    rw [Program.walkIn, below_of_below? hnew, Program.walkIn, hbelow]
    simp
  leaf _ := by
    have hnew : (p.insertAt none i op).2.body.below? p.slots.size = some .nil :=
      Forest.below?_insertAt_self hp.notMem_walk
    rw [Program.walkIn, below_of_below? hnew, Forest.preorder_nil]
  roots id := by
    rw [body_insertAt_none, Forest.mem_roots_insertAt]
    simp [or_comm]

/-- A new operation below another has the header that it was made with. -/
theorem op_insertAt_some_new (i : Nat) (op : Operation) :
    op.SameHeader ((p.insertAt (some a) i op).2.op p.slots.size) := by
  by_cases ha : a = p.slots.size
  · subst ha
    rw [insertAt, op_updateBlock_self (by simp)]
    simp [Program.op, Operation.SameHeader]
  · rw [Program.op, slot_insertAt_some_new ha]
    exact .refl op

/-- A creation below an operation leaves the headers of the others. -/
theorem op_insertAt_some_old (hid : id < p.slots.size) (i : Nat) (op : Operation) :
    (p.op id).SameHeader ((p.insertAt (some a) i op).2.op id) := by
  by_cases hida : id = a
  · subst hida
    rw [op_insertAt_parent hid]
    rfl
  · rw [op_congr (slot_insertAt_some hida hid i op)]
    exact .refl _

/-- An operation that is created below one of the body. -/
theorem created_insertAt_inside (hp : p.Sound) (ha : a ∈ p.walk) (i : Nat) (op : Operation) :
    p.Created (some a) op (p.insertAt (some a) i op).2 := by
  have hadds := adds_insertAt hp.toWellFormed ha i op
  have hholds : p.Holds (some a) := fun b hb => by cases hb; exact ha
  obtain ⟨g, hg, -⟩ := exists_below ha
  refine ⟨⟨hadds.wellFormed, fun t ht id hid => ?_⟩, size_insertAt p _ i op, fun _ => hadds.new,
    op_insertAt_some_new i op, fun id hid => op_insertAt_some_old hid i op, fun id => ?_,
    fun b hb id => ?_, fun _ => ?_, fun id => ?_⟩
  · obtain ⟨d, hd, -, hids⟩ := mem_ids_insertAt ht
    rw [hids fun had => (hp.aside d hd a had).2 ha] at hid
    obtain ⟨hlt, hnot⟩ := hp.aside d hd id hid
    rw [size_insertAt, hadds.walk]
    refine ⟨Nat.lt_succ_of_lt hlt, fun h => ?_⟩
    rcases h with rfl | h
    · exact Nat.lt_irrefl _ hlt
    · exact hnot h
  · rw [hadds.walk, or_comm]
    simp [hholds]
  · rw [hadds.walkIn b hb]
    simp only [Option.some.injEq, exists_eq_left', eq_comm (a := b), and_comm]
  · have hnew := Forest.below?_newLeaf hp.distinct hg hp.notMem_walk i
    rw [Program.walkIn, below_of_below? (p := (p.insertAt (some a) i op).2) hnew,
      Forest.preorder_nil]
  · rw [body_insertAt_some, Forest.roots_update]
    simp

/-- Of an operation that is created below one outside the body, the body shows nothing. -/
theorem created_insertAt_outside (hp : p.Sound) (ha : a ∉ p.walk) (i : Nat) (op : Operation) :
    p.Created (some a) op (p.insertAt (some a) i op).2 := by
  have hbody : (p.insertAt (some a) i op).2.body = p.body := by
    rw [body_insertAt_some, Forest.update_eq_self ha]
  have hwalk : (p.insertAt (some a) i op).2.walk = p.walk := by
    rw [Program.walk, hbody, Program.walk]
  have hholds : ¬ p.Holds (some a) := fun h => ha (h a rfl)
  refine ⟨⟨⟨by rw [hbody]; exact hp.distinct, fun id hid => ?_⟩, fun t ht id hid => ?_⟩,
    size_insertAt p _ i op, fun h => absurd h hholds, op_insertAt_some_new i op,
    fun id hid => op_insertAt_some_old hid i op, fun id => ?_, fun b hb id => ?_,
    fun h => absurd h hholds, fun id => ?_⟩
  · rw [hwalk] at hid
    rw [size_insertAt]
    exact Nat.lt_succ_of_lt (hp.created id hid)
  · obtain ⟨d, hd, hids, -⟩ := mem_ids_insertAt ht
    rw [size_insertAt, hwalk]
    rcases hids id hid with rfl | hid
    · exact ⟨Nat.lt_succ_self _, hp.notMem_walk⟩
    · obtain ⟨hlt, hnot⟩ := hp.aside d hd id hid
      exact ⟨Nat.lt_succ_of_lt hlt, hnot⟩
  · simp [hwalk, hholds]
  · obtain ⟨g, hg, hbelow⟩ := exists_below hb
    rw [Program.walkIn, below_of_below? (hbody ▸ hg), Program.walkIn, hbelow]
    refine ⟨.inl, fun h => h.resolve_right ?_⟩
    rintro ⟨-, c, hc, hcb⟩
    cases hc
    rcases hcb with rfl | hcb
    · exact ha hb
    · exact ha ((hp.distinct.below hg).2.2 _ (hbelow ▸ hcb))
  · rw [hbody]
    simp

/-- A creation at any place adds one operation there, and leaves the others where they are. -/
theorem created_insertAt (hp : p.Sound) (parent : Option OpId) (i : Nat) (op : Operation) :
    p.Created parent op (p.insertAt parent i op).2 := by
  cases parent with
  | none => exact created_insertAt_none hp i op
  | some a =>
      by_cases ha : a ∈ p.walk
      · exact created_insertAt_inside hp ha i op
      · exact created_insertAt_outside hp ha i op

/-! ### Erasure -/

/-- A program without the tree at an operation. -/
structure Cut (p : Program) (x : OpId) (q : Program) : Prop where
  sound : q.Sound
  size : q.slots.size = p.slots.size
  op : ∀ id, q.op id = p.op id
  walk : ∀ id, id ∈ q.walk ↔ id ∈ p.walk ∧ id ≠ x ∧ id ∉ p.walkIn x
  walkIn : ∀ a ∈ q.walk, ∀ id, id ∈ q.walkIn a ↔ id ∈ p.walkIn a ∧ id ∈ q.walk
  roots : ∀ id, id ∈ q.body.roots ↔ id ∈ p.body.roots ∧ id ≠ x

/-- The trees set aside are the new one and those of before. -/
theorem mem_insertDetached {d t : Detached} {l : List Detached} :
    t ∈ insertDetached d l ↔ t = d ∨ t ∈ l := by
  induction l with
  | nil => simp [insertDetached]
  | cons e l ih =>
      rw [insertDetached]
      split
      · simp
      · rw [List.mem_cons, ih, List.mem_cons]
        exact or_left_comm

/-- The trees set aside after an erasure: the one that was cut out, and the others without it. -/
theorem detached_erase (p : Program) (x : OpId) :
    (p.erase x).detached = insertDetached ⟨p.parent? x, x, p.below x⟩
      ((p.detached.filter (·.root != x)).map fun d =>
        { d with children := d.children.remove x }) := rfl

/-- The operations of a tree set aside after an erasure were set aside before, or are those of the
erased tree. -/
theorem mem_ids_erase {t : Detached} (ht : t ∈ (p.erase x).detached) (hid : id ∈ t.ids) :
    id = x ∨ id ∈ p.walkIn x ∨ ∃ d ∈ p.detached, id ∈ d.ids := by
  rw [detached_erase, mem_insertDetached, List.mem_map] at ht
  rcases ht with rfl | ⟨d, hd, rfl⟩
  · rw [Detached.ids, List.mem_cons] at hid
    exact hid.imp_right .inl
  · rw [Detached.ids, List.mem_cons] at hid
    refine .inr (.inr ⟨d, (List.mem_filter.1 hd).1, ?_⟩)
    rw [Detached.ids, List.mem_cons]
    exact hid.imp_right Forest.mem_preorder_of_mem_remove

/-- After an erasure the body lacks the operation and all below it. -/
theorem mem_walk_erase (hp : p.Sound) :
    id ∈ (p.erase x).walk ↔ id ∈ p.walk ∧ id ≠ x ∧ id ∉ p.walkIn x := by
  by_cases hx : x ∈ p.walk
  · obtain ⟨g, hg, hbelow⟩ := exists_below hx
    rw [Program.walk, body_erase, Forest.mem_preorder_remove hp.distinct hg, Program.walkIn, hbelow]
    rfl
  · rw [Program.walk, body_erase, Forest.remove_eq_self hx]
    exact ⟨fun h => ⟨h, by rintro rfl; exact hx h,
      fun hmem => hp.notMem_walk_of_walkIn hx hmem h⟩, fun h => h.1⟩

/-- An erasure cuts one tree out. -/
theorem cut_erase (hp : p.Sound) (hx : x < p.slots.size) : p.Cut x (p.erase x) where
  sound :=
    { hp.toWellFormed.erase x with
      aside := fun t ht id hid => by
        rw [size_erase, mem_walk_erase hp]
        rcases mem_ids_erase ht hid with rfl | hid | ⟨d, hd, hid⟩
        · exact ⟨hx, fun h => h.2.1 rfl⟩
        · exact ⟨hp.lt_size_of_walkIn hid, fun h => h.2.2 hid⟩
        · obtain ⟨hlt, hnot⟩ := hp.aside d hd id hid
          exact ⟨hlt, fun h => hnot h.1⟩ }
  size := size_erase p x
  op := op_erase p x
  walk id := mem_walk_erase hp
  walkIn a ha id := by
    obtain ⟨hap, hax, hanot⟩ := (mem_walk_erase hp).1 ha
    obtain ⟨h, hh, hbelow⟩ := exists_below hap
    have hdistinct := (hp.distinct.below hh).1
    have hrem : (p.erase x).body.below? a = some (h.remove x) := by
      rw [body_erase]
      refine Forest.below?_remove hp.distinct hax hh fun g hg => ?_
      rw [Program.walkIn, below_of_below? hg] at hanot
      exact hanot
    rw [Program.walkIn, below_of_below? hrem, Program.walkIn, hbelow]
    constructor
    · intro hid
      have hmem : id ∈ (p.erase x).walk := by
        rw [Program.walk]
        exact ((hp.distinct.remove x).below hrem).2.2 id hid
      exact ⟨Forest.mem_preorder_of_mem_remove hid, hmem⟩
    · rintro ⟨hid, hwalk⟩
      obtain ⟨-, hidx, hidnot⟩ := (mem_walk_erase hp).1 hwalk
      rcases hxh : h.below? x with _ | g
      · rwa [Forest.remove_eq_self (Forest.below?_eq_none_iff.1 hxh)]
      · rw [Forest.mem_preorder_remove hdistinct hxh]
        refine ⟨hid, hidx, ?_⟩
        rwa [Program.walkIn, below_of_below? (Forest.below?_trans hp.distinct hh hxh)] at hidnot
  roots id := by
    rw [body_erase, Forest.roots_remove hp.distinct]
    simp

/-! ### Places inside a device -/

/-- Whether a place is outside the body, at its top, or in the tree at a device. -/
def Within (p : Program) (device : OpId) (parent : Option OpId) : Prop :=
  ∀ a, parent = some a → a ∈ p.walk → a = device ∨ a ∈ p.walkIn device

/-- Whether an operation is below a place, if the place is in the body at all. -/
def Above (p : Program) (x : OpId) (parent : Option OpId) : Prop :=
  ∀ a, parent = some a → a ∈ p.walk → x ∈ p.walkIn a

/-- Different trees at the top have no operation in common. -/
theorem device_eq_of_within (hp : p.WellFormed) {d e : OpId} (hd : d ∈ p.body.roots)
    (he : e ∈ p.body.roots) (had : a = d ∨ a ∈ p.walkIn d) (hae : a = e ∨ a ∈ p.walkIn e) :
    d = e := by
  have hroot : ∀ {x y : OpId}, x ∈ p.body.roots → y ∈ p.body.roots → x ∉ p.walkIn y :=
    fun {x y} hx hy hxy => by
      obtain ⟨g, hg, hbelow⟩ := exists_below (mem_walk_of_mem_roots hy)
      rw [walkIn, hbelow] at hxy
      exact hp.distinct.notMem_roots_of_below hg hxy hx
  rcases had with rfl | had <;> rcases hae with rfl | hae
  · rfl
  · exact absurd hae (hroot hd he)
  · exact absurd had (hroot he hd)
  · obtain ⟨g, hg, hbelow⟩ := exists_below (mem_walk_of_mem_roots hd)
    obtain ⟨h, hh, hbelow'⟩ := exists_below (mem_walk_of_mem_roots he)
    have hmem : e = d ∨ e ∈ p.walkIn d := by
      rw [walkIn, hbelow] at had ⊢
      rw [walkIn, hbelow'] at hae
      exact hp.distinct.parent_below hd hg had hh hae
    exact (hmem.resolve_right (hroot he hd)).symm

/-- An operation is put before another by an insertion at some place; before one of the body it is
in the body too. -/
theorem insertBefore_eq (p : Program) (anchor : OpId) (op : Operation) :
    ∃ parent i, p.insertBefore anchor op = p.insertAt parent i op := by
  rw [insertBefore]
  split
  · exact ⟨_, _, rfl⟩
  · exact ⟨_, _, rfl⟩

/-- The place of an operation of the body below a device is the device, or below it. -/
theorem locate?_below (hp : p.WellFormed) (hdevice : device ∈ p.body.roots)
    (hx : x ∈ p.walkIn device) :
    ∃ b i, p.locate? x = some (some b, i) ∧ x ∈ p.walkIn b ∧
      (b = device ∨ b ∈ p.walkIn device) := by
  obtain ⟨g, hg, hbelow⟩ := exists_below (mem_walk_of_mem_roots hdevice)
  rw [walkIn, hbelow] at hx ⊢
  have hwalk : x ∈ p.body.preorder := (hp.distinct.below hg).2.2 x hx
  obtain ⟨⟨parent, i⟩, hplace⟩ := Option.isSome_iff_exists.1
    (Forest.locateFrom?_isSome hwalk none 0)
  have hlocate : p.locate? x = some (parent, i) := by
    rw [locate?, Forest.locate?, hplace, Option.some_or]
  rcases Forest.locateFrom?_eq_some hp.distinct hplace with ⟨-, -, hroot⟩ | ⟨b, h, rfl, hb, hxh⟩
  · exact absurd (List.mem_of_getElem? hroot) (hp.distinct.notMem_roots_of_below hg hx)
  · have hxb := Forest.mem_preorder_of_mem_roots (List.mem_of_getElem? hxh)
    refine ⟨b, i, hlocate, ?_, hp.distinct.parent_below hdevice hg hx hb hxb⟩
    rwa [walkIn, below_of_below? hb]

/-- The place of an operation outside the body is outside the body. -/
theorem locate?_outside (hp : p.Sound) (hx : x ∉ p.walk) {i : Nat}
    (h : p.locate? x = some (parent, i)) : ∃ b, parent = some b ∧ b ∉ p.walk := by
  rw [locate?, Forest.locate?, Forest.locateFrom?_eq_none hx, Option.none_or] at h
  obtain ⟨t, ht, hplace⟩ := List.exists_of_findSome?_eq_some h
  have hmem : ∃ b ∈ t.ids, parent = some b := by
    rcases Forest.parent_of_locateFrom? hplace with rfl | ⟨b, hb, rfl⟩
    · exact ⟨t.root, List.mem_cons_self, rfl⟩
    · exact ⟨b, List.mem_cons_of_mem _ hb, rfl⟩
  obtain ⟨b, hb, rfl⟩ := hmem
  exact ⟨b, rfl, (hp.aside t ht b hb).2⟩

/-- Before an operation that is in the tree of a device if it is in the body at all, there is a
place of the device above it. -/
theorem insertBefore_within (hp : p.Sound) (hdevice : device ∈ p.body.roots)
    (hx : x ∈ p.walk → x ∈ p.walkIn device) (op : Operation) :
    ∃ parent i, p.insertBefore x op = p.insertAt parent i op ∧ p.Within device parent ∧
      p.Above x parent := by
  by_cases hwalk : x ∈ p.walk
  · obtain ⟨b, i, hlocate, hxb, hb⟩ := locate?_below hp.toWellFormed hdevice (hx hwalk)
    refine ⟨some b, i, by rw [insertBefore, hlocate], fun a ha _ => ?_, fun a ha _ => ?_⟩
    · cases ha
      exact hb
    · cases ha
      exact hxb
  · rcases hlocate : p.locate? x with _ | ⟨parent, i⟩
    · refine ⟨none, _, by rw [insertBefore, hlocate]; rfl, fun a ha => ?_, fun a ha => ?_⟩
      · cases ha
      · cases ha
    · obtain ⟨b, rfl, hb⟩ := locate?_outside hp hwalk hlocate
      refine ⟨some b, i, by rw [insertBefore, hlocate], fun a ha h => ?_, fun a ha h => ?_⟩
      · cases ha
        exact absurd h hb
      · cases ha
        exact absurd h hb

/-- What is put before an operation that is below a device is below it, too. -/
theorem insertBefore_created (hp : p.Sound) (hdevice : device ∈ p.body.roots)
    (hx : x ∈ p.walkIn device) (op : Operation) :
    ∃ parent, p.Created parent op (p.insertBefore x op).2 ∧ p.Holds parent ∧
      ∀ id, id ∈ (p.insertBefore x op).2.walkIn device ↔
        id ∈ p.walkIn device ∨ id = p.slots.size := by
  obtain ⟨b, i, hlocate, -, hb⟩ := locate?_below hp.toWellFormed hdevice hx
  have hwalk := mem_walk_of_mem_roots hdevice
  have hnew := created_insertAt hp (some b) i op
  rw [insertBefore, hlocate]
  refine ⟨some b, hnew, fun a ha => ?_, fun id => ?_⟩
  · obtain rfl := Option.some.inj ha
    exact hb.elim (fun heq => heq ▸ hwalk) (hp.mem_walk_of_walkIn hwalk)
  · rw [hnew.walkIn device hwalk]
    exact or_congr_right (and_iff_left ⟨b, rfl, hb⟩)

/-! ### Operations with a name -/

/-- What is found below an operation is still found there after a creation. -/
theorem Created.mem_findIn (h : p.Created parent op q) (hp : p.Sound) (ha : a ∈ p.walk)
    {name : String} (hid : id ∈ p.findIn a name) : id ∈ q.findIn a name := by
  obtain ⟨hin, hname⟩ := List.mem_filter.1 hid
  refine List.mem_filter.2 ⟨(h.walkIn a ha id).2 (.inl hin), ?_⟩
  rwa [(h.old id (hp.lt_size_of_walkIn hin)).is]

/-- What is found in a tree at the top after a creation was found there before, or is new, and then
the tree is that of the creation. -/
theorem Created.findIn_cases (h : p.Created parent op q) (hp : p.Sound) {owner : OpId}
    (hdevice : device ∈ p.body.roots) (howner : owner ∈ p.body.roots)
    (hwithin : p.Within owner parent) {name : String} (hid : id ∈ q.findIn device name) :
    id ∈ p.findIn device name ∨ (id = p.slots.size ∧ device = owner) := by
  have hwalk := mem_walk_of_mem_roots hdevice
  obtain ⟨hin, hname⟩ := List.mem_filter.1 hid
  rcases (h.walkIn device hwalk id).1 hin with hin | ⟨rfl, b, rfl, hb⟩
  · rw [(h.old id (hp.lt_size_of_walkIn hin)).is] at hname
    exact .inl (List.mem_filter.2 ⟨hin, hname⟩)
  · have hbwalk : b ∈ p.walk := by
      rcases hb with rfl | hb
      · exact hwalk
      · exact hp.mem_walk_of_walkIn hwalk hb
    exact .inr ⟨rfl, device_eq_of_within hp.toWellFormed hdevice howner hb (hwithin b rfl hbwalk)⟩

end Program

end TileFlow
