import TileFlow.Proofs.Program.Tree

/-!
# Edits of the sequence of operations

A program is read in pre-order, so an edit of its forest is an edit of one list. In a program whose
body accounts for the operations that are not erased, this list holds the live operations, and each
edit puts an operation into it, cuts an interval out of it or moves one: the interval of an
operation is the operation with all below it. Edits that name live operations only keep it so.

## Main definitions

* `Rearrangement`: the edits, where they are allowed and what they do to the sequence.
* `Program.Accounted`: trees whose body holds the operations that are not erased.

## Main results

* `Program.Accounted.apply`: an allowed edit keeps the sequence the list of the live operations.
* `Rearrangement.reorders`: what one edit does to the sequence.
-/

namespace TileFlow

/-- An operation and all below it, in order. -/
def Program.interval (p : Program) (id : OpId) : List OpId :=
  id :: p.walkIn id

/-- Whether a place is the top of the body, or an operation that is not erased. -/
def Program.LivePlace (p : Program) (parent : Option OpId) : Prop :=
  ∀ a, parent = some a → p.isLive a = true

/-- Whether the operations of a parent end between two parts of a sequence: `inside` are those
below each operation, and the operations at the top end where the sequence does. -/
def EndsBlock (inside : OpId → List OpId) (parent : Option OpId) (before after : List OpId) :
    Prop :=
  match parent with
  | none => after = []
  | some a => ∃ front, before = front ++ a :: inside a

/-- An edit of the arrangement of a program, where what is inserted is of type `α`. -/
inductive Rearrangement (α : Type) where
  | append (parent : Option OpId) (new : α)
  | insertAt (parent : Option OpId) (i : Nat) (new : α)
  | insertBefore (anchor : OpId) (new : α)
  | insertAfter (anchor : OpId) (new : α)
  | erase (id : OpId)
  | moveTo (id : OpId) (parent : Option OpId)

namespace Rearrangement

/-- The program after an edit. -/
def apply (p : Program) : Rearrangement Operation → Program
  | append parent op => (p.append parent op).2
  | insertAt parent i op => (p.insertAt parent i op).2
  | insertBefore anchor op => (p.insertBefore anchor op).2
  | insertAfter anchor op => (p.insertAfter anchor op).2
  | erase id => p.erase id
  | moveTo id parent => p.moveTo id parent

/-- Whether an edit names live operations and a place within bounds, and moves no operation under
itself or one below it. -/
def Allowed (p : Program) : Rearrangement Operation → Prop
  | append parent _ => p.LivePlace parent
  | insertAt parent i _ => p.LivePlace parent ∧ i ≤ (p.children parent).length
  | insertBefore anchor _ => p.isLive anchor = true
  | insertAfter anchor _ => p.isLive anchor = true
  | erase id => p.isLive id = true
  | moveTo id parent =>
    p.isLive id = true ∧ p.LivePlace parent ∧ ∀ a, parent = some a → a ∉ p.interval id

instance (p : Program) (parent : Option OpId) : Decidable (p.LivePlace parent) :=
  inferInstanceAs (Decidable (∀ a ∈ parent, p.isLive a = true))

instance (e : Rearrangement Operation) (p : Program) : Decidable (e.Allowed p) :=
  match e with
  | append parent _ => inferInstanceAs (Decidable (p.LivePlace parent))
  | insertAt parent i _ =>
    inferInstanceAs (Decidable (p.LivePlace parent ∧ i ≤ (p.children parent).length))
  | insertBefore anchor _ => inferInstanceAs (Decidable (p.isLive anchor = true))
  | insertAfter anchor _ => inferInstanceAs (Decidable (p.isLive anchor = true))
  | erase id => inferInstanceAs (Decidable (p.isLive id = true))
  | moveTo id parent => inferInstanceAs (Decidable
      (p.isLive id = true ∧ p.LivePlace parent ∧ ∀ a ∈ parent, a ∉ p.interval id))

/-- Whether a program lists one more operation, at the end of those of a parent. -/
def AddsLast (p q : Program) (parent : Option OpId) (new : OpId) : Prop :=
  ∃ A B, p.walk = A ++ B ∧ EndsBlock p.walkIn parent A B ∧ q.walk = A ++ new :: B

/-- Whether a program lists one more operation, directly before another. -/
def AddsBefore (p q : Program) (anchor new : OpId) : Prop :=
  ∃ A B, p.walk = A ++ anchor :: B ∧ q.walk = A ++ new :: anchor :: B

/-- What an edit does to the sequence of the operations of a program. -/
def Reorders (p q : Program) : Rearrangement Operation → Prop
  | append parent op => AddsLast p q parent (p.append parent op).1
  | insertAt parent i op =>
    match (p.children parent)[i]? with
    | some anchor => AddsBefore p q anchor (p.insertAt parent i op).1
    | none => AddsLast p q parent (p.insertAt parent i op).1
  | insertBefore anchor op => AddsBefore p q anchor (p.insertBefore anchor op).1
  | insertAfter anchor op => ∃ A B, p.walk = A ++ (p.interval anchor ++ B) ∧
      q.walk = A ++ (p.interval anchor ++ (p.insertAfter anchor op).1 :: B)
  | erase id => ∃ A B, p.walk = A ++ (p.interval id ++ B) ∧ q.walk = A ++ B
  | moveTo id parent => ∃ A B C D, p.walk = A ++ (p.interval id ++ B) ∧ A ++ B = C ++ D ∧
      EndsBlock (fun a => (p.walkIn a).filter (· ∉ p.interval id)) parent C D ∧
      q.walk = C ++ (p.interval id ++ D) ∧ q.interval id = p.interval id

end Rearrangement

namespace Program

variable {p : Program} {id a x : OpId} {parent : Option OpId} {i : Nat}

/-- A tree whose body holds the operations that are not erased. -/
structure Accounted (p : Program) : Prop where
  tree : p.Tree
  live : ∀ id, id ∈ p.walk ↔ p.isLive id = true

/-- A live place is part of the body. -/
theorem Accounted.holds (hp : p.Accounted) (h : p.LivePlace parent) : p.Holds parent :=
  fun a ha => (hp.live a).2 (h a ha)

/-! ### Live operations -/

/-- The new operation is the only one that becomes live. -/
theorem isLive_insertAt (p : Program) (parent : Option OpId) (i : Nat) (op : Operation) :
    (p.insertAt parent i op).2.isLive id = true ↔ p.isLive id = true ∨ id = p.slots.size := by
  have hpush : Program.isLive { p with slots := p.slots.push { op } } id = true ↔
      p.isLive id = true ∨ id = p.slots.size := by
    rw [isLive, isLive, Array.getElem?_push]
    split
    · rename_i h
      simp [h]
    · rename_i h
      simp [h]
  cases parent with
  | none => exact hpush
  | some a =>
      rw [← hpush]
      exact Bool.eq_iff_iff.1 (isLive_modify (p := { p with slots := p.slots.push { op } }) a id
        fun op => { op with hasRegion := true })

/-- After a creation in the body the live operations are still those of the body. -/
theorem Accounted.insertAt (hp : p.Accounted) (h : p.Holds parent) (i : Nat) (op : Operation) :
    (p.insertAt parent i op).2.Accounted where
  tree := hp.tree.insertAt parent i op
  live id := by
    rw [(created_insertAt hp.tree.sound parent i op).walk, isLive_insertAt, hp.live]
    simp [h]

/-- After the erasure of a live operation the live ones are still those of the body. -/
theorem Accounted.erase (hp : p.Accounted) (hid : p.isLive id = true) : (p.erase id).Accounted where
  tree := hp.tree.erase (hp.tree.sound.created id ((hp.live id).2 hid))
  live j := by rw [mem_walk_erase hp.tree.sound, isLive_erase, hp.live]

/-! ### The interval of an operation -/

/-- An operation of the body is listed by its parent, which is in the body too. -/
theorem Tree.exists_place (hp : p.Tree) (ha : a ∈ p.walk) :
    ∃ parent i, p.locate? a = some (parent, i) ∧ (p.children parent)[i]? = some a ∧
      p.Holds parent := by
  obtain ⟨⟨parent, i⟩, hplace⟩ := Option.isSome_iff_exists.1
    (Forest.locateFrom?_isSome ha none 0)
  have hlocate : p.locate? a = some (parent, i) := by
    rw [locate?, Forest.locate?, hplace, Option.some_or]
  refine ⟨parent, i, hlocate, hp.locate?_eq_some_iff.1 hlocate, fun b hb => ?_⟩
  rcases Forest.parent_of_locateFrom? hplace with rfl | ⟨c, hc, rfl⟩
  · cases hb
  · cases hb
    exact hc

/-- The interval of an operation in the sequence, which an erasure cuts out. -/
theorem Tree.exists_interval (hp : p.Tree) (hid : id ∈ p.walk) :
    ∃ A B, p.walk = A ++ (p.interval id ++ B) ∧ (p.erase id).walk = A ++ B := by
  obtain ⟨g, hg, hbelow⟩ := exists_below hid
  obtain ⟨A, B, hwalk, -, hrem⟩ := Forest.exists_split hp.distinct_body hg
  exact ⟨A, B, by rw [interval, walkIn, hbelow]; exact hwalk, hrem⟩

/-- The block of a parent in the sequence, and what an edit of the block does. -/
theorem Tree.exists_block (hp : p.Tree) (h : p.Holds parent) :
    ∃ A B, p.walk = A ++ ((p.block parent).preorder ++ B) ∧
      EndsBlock p.walkIn parent (A ++ (p.block parent).preorder) B ∧
      ∀ k, (p.updateBlock parent k).walk = A ++ ((k (p.block parent)).preorder ++ B) := by
  cases parent with
  | none => exact ⟨[], [], by simp [block, walk], rfl, fun k => by simp [block, walk, updateBlock]⟩
  | some a =>
      obtain ⟨g, hg, hbelow⟩ := exists_below (h a rfl)
      obtain ⟨A, B, hwalk, hup, -⟩ := Forest.exists_split hp.distinct_body hg
      refine ⟨A ++ [a], B, ?_, ⟨A, ?_⟩, fun k => ?_⟩
      · simpa [block, hbelow, walk] using hwalk
      · simp [block, walkIn]
      · simpa [block, hbelow, walk, updateBlock] using hup k

/-- The operations below one that a parent lists are those of its tree. -/
theorem Tree.walkIn_of_trees (hp : p.Tree) {g : Forest OpId}
    (hx : (x, g) ∈ (p.block parent).trees) : p.walkIn x = g.preorder := by
  rw [walkIn]
  cases parent with
  | none => rw [below_of_below? (Forest.below?_of_mem_trees hp.distinct_body hx)]
  | some a =>
      rw [block, below_eq] at hx
      rcases ha : p.whole.below? a with _ | h
      · rw [ha] at hx
        cases hx
      · rw [ha, Option.getD_some] at hx
        have hxh := Forest.below?_of_mem_trees (hp.distinct.below ha).1 hx
        rw [below_of_whole (Forest.below?_trans hp.distinct ha hxh)]

/-! ### Insertions -/

/-- A new operation before one that a parent lists, or behind it. -/
theorem Tree.walk_insertAt (hp : p.Tree) (h : p.Holds parent)
    (hx : (p.children parent)[i]? = some x) (op : Operation) : ∃ A B, p.walk = A ++
    (p.interval x ++ B) ∧
      (p.insertAt parent i op).2.walk = A ++ p.slots.size :: (p.interval x ++ B) ∧
      (p.insertAt parent (i + 1) op).2.walk = A ++ (p.interval x ++ p.slots.size :: B) := by
  obtain ⟨A, B, hwalk, -, hup⟩ := hp.exists_block h
  obtain ⟨g, hg⟩ := Forest.getElem?_roots.1 hx
  obtain ⟨C, D, hblock, hbefore, hbehind⟩ := Forest.insertAt_of_getElem? hg p.slots.size
  have hinside := hp.walkIn_of_trees (List.mem_of_getElem? hg)
  have hbody : ∀ j, (p.insertAt parent j op).2.walk =
      (p.updateBlock parent (·.insertAt j p.slots.size .nil)).walk := fun j => by
    cases parent <;> rfl
  refine ⟨A ++ C, D ++ B, ?_, ?_, ?_⟩
  · rw [hwalk, hblock, interval, hinside]
    simp
  · rw [hbody, hup, hbefore, interval, hinside]
    simp
  · rw [hbody, hup, hbehind, interval, hinside]
    simp

/-- An operation behind its siblings comes last in the block of its parent. -/
theorem Tree.walk_append (hp : p.Tree) (h : p.Holds parent) (op : Operation) :
    Rearrangement.AddsLast p (p.append parent op).2 parent p.slots.size := by
  obtain ⟨A, B, hwalk, hends, hup⟩ := hp.exists_block h
  refine ⟨_, B, by rw [hwalk, ← List.append_assoc], hends, ?_⟩
  have hbody : (p.append parent op).2.walk = (p.updateBlock parent
      (·.insertAt (p.block parent).roots.length p.slots.size .nil)).walk := by
    cases parent <;> rfl
  rw [hbody, hup, Forest.insertAt_length_roots]
  simp [Forest.single]

/-! ### Moves -/

/-- A tree that is moved to the end of the top keeps its interval. -/
theorem Tree.walk_moveTo_none (hp : p.Tree) (hid : id ∈ p.walk) :
    (Rearrangement.moveTo id none).Reorders p (p.moveTo id none) := by
  obtain ⟨g, hg, hbelow⟩ := exists_below hid
  have hinterval : p.interval id = id :: g.preorder := by rw [interval, walkIn, hbelow]
  obtain ⟨A, B, hwalk, -, hrem⟩ := Forest.exists_split hp.distinct_body hg
  have hbody : (p.moveTo id none).body = p.body.remove id ++ .single id g := by
    rw [← hbelow]
    rfl
  have hidrem : id ∉ (p.body.remove id).preorder := fun hmem =>
    ((Forest.mem_preorder_remove hp.distinct_body hg).1 hmem).2.1 rfl
  refine ⟨A, B, A ++ B, [], ?_, (List.append_nil _).symm, rfl, ?_, ?_⟩
  · rw [hinterval]
    exact hwalk
  · rw [walk, hbody, Forest.preorder_append, hrem, hinterval]
    simp [Forest.single]
  · rw [hinterval, interval, walkIn, below_of_below? (hbody ▸ Forest.below?_append_single hidrem)]

/-- A tree that is moved to the end of the region of an operation outside it keeps its interval. -/
theorem Tree.walk_moveTo_some (hp : p.Tree) (hid : id ∈ p.walk) (ha : a ∈ p.walk)
    (hapart : a ∉ p.interval id) :
    (Rearrangement.moveTo id (some a)).Reorders p (p.moveTo id (some a)) := by
  obtain ⟨g, hg, hbelow⟩ := exists_below hid
  obtain ⟨k, hk, hkbelow⟩ := exists_below ha
  have hinterval : p.interval id = id :: g.preorder := by rw [interval, walkIn, hbelow]
  rw [hinterval, List.mem_cons, not_or] at hapart
  obtain ⟨A, B, hwalk, -, hrem⟩ := Forest.exists_split hp.distinct_body hg
  -- The tree is taken out first, and the region that it goes to is that of what is left.
  obtain ⟨ha, hfilter⟩ :=
    Forest.below?_remove_filter hp.distinct_body hg hk hapart.1 hapart.2
  have hdistinct := hp.distinct_body.remove id
  obtain ⟨C, D, hleft, hup, -⟩ := Forest.exists_split hdistinct ha
  have hbody : (p.moveTo id (some a)).body =
      (p.body.remove id).update a (· ++ .single id g) := by rw [body_moveTo, hbelow]
  have hidk : id ∉ (k.remove id).preorder := fun hmem =>
    ((Forest.mem_preorder_remove hp.distinct_body hg).1 ((hdistinct.below ha).2.2 id hmem)).2.1 rfl
  refine ⟨A, B, C ++ a :: (k.remove id).preorder, D, ?_, ?_, ⟨C, ?_⟩, ?_, ?_⟩
  · rw [hinterval]
    exact hwalk
  · rw [← hrem, hleft]
    simp
  · show _ = C ++ a :: (p.walkIn a).filter (· ∉ p.interval id)
    rw [hfilter, walkIn, hkbelow, hinterval]
  · rw [walk, hbody, hup, hinterval]
    simp [Forest.single]
  · have hbelow' : (p.moveTo id (some a)).body.below? id = some g := by
      have hmoved := (hp.moveTo (hp.sound.created id hid) (some a)).distinct_body
      rw [hbody] at hmoved ⊢
      exact Forest.below?_trans hmoved (Forest.below?_update_self ha _)
        (Forest.below?_append_single hidk)
    rw [hinterval, interval, walkIn, below_of_below? hbelow']

/-- A tree that is moved is not the one at the place, and keeps its interval. -/
theorem Tree.walk_moveTo (hp : p.Tree) (hid : id ∈ p.walk) (h : p.Holds parent)
    (hapart : ∀ a, parent = some a → a ∉ p.interval id) :
    (Rearrangement.moveTo id parent).Reorders p (p.moveTo id parent) := by
  cases parent with
  | none => exact hp.walk_moveTo_none hid
  | some a => exact hp.walk_moveTo_some hid (h a rfl) (hapart a rfl)

/-- A move keeps the operations of the body. -/
theorem Tree.mem_walk_moveTo (hp : p.Tree) (hid : id ∈ p.walk) (h : p.Holds parent)
    (hapart : ∀ a, parent = some a → a ∉ p.interval id) {j : OpId} :
    j ∈ (p.moveTo id parent).walk ↔ j ∈ p.walk := by
  obtain ⟨A, B, C, D, hwalk, hrest, -, hmoved, -⟩ := hp.walk_moveTo hid h hapart
  have hsame : j ∈ C ++ D ↔ j ∈ A ++ B := by rw [hrest]
  rw [hmoved, hwalk]
  simp only [List.mem_append] at hsame ⊢
  grind

/-- An operation at the top is not below another one. -/
theorem Tree.root_notMem_interval (hp : p.Tree) (ha : a ∈ p.body.roots) (hid : id ∈ p.walk)
    (hne : id ≠ a) : a ∉ p.interval id := fun hmem => by
  rcases List.mem_cons.1 hmem with heq | hmem
  · exact hne heq.symm
  · obtain ⟨g, hg, hbelow⟩ := exists_below hid
    rw [walkIn, hbelow] at hmem
    exact hp.distinct_body.notMem_roots_of_below hg hmem ha

/-- A tree that is moved below an operation at the top leaves that one there, and the body has the
operations that it had. -/
theorem Tree.moveTo_root (hp : p.Tree) (ha : a ∈ p.body.roots) (hid : id ∈ p.walk) (hne : id ≠ a) :
    a ∈ (p.moveTo id (some a)).body.roots ∧
      ∀ j, j ∈ (p.moveTo id (some a)).walk ↔ j ∈ p.walk := by
  refine ⟨?_, fun j => hp.mem_walk_moveTo hid ?_ ?_⟩
  · rw [body_moveTo, Forest.roots_update, Forest.roots_remove hp.distinct_body]
    exact List.mem_filter.2 ⟨ha, by simpa using Ne.symm hne⟩
  · rintro b ⟨⟩
    exact mem_walk_of_mem_roots ha
  · rintro b ⟨⟩
    exact hp.root_notMem_interval ha hid hne

/-- After a move within the body the live operations are still those of the body. -/
theorem Accounted.moveTo (hp : p.Accounted) (hid : id ∈ p.walk) (h : p.Holds parent)
    (hapart : ∀ a, parent = some a → a ∉ p.interval id) : (p.moveTo id parent).Accounted where
  tree := hp.tree.moveTo (hp.tree.sound.created id hid) parent
  live j := by
    have hlive : (p.moveTo id parent).isLive j = p.isLive j := by
      cases parent with
      | none => rfl
      | some a => exact isLive_moveTo p id a j
    rw [hp.tree.mem_walk_moveTo hid h hapart, hlive, hp.live]

end Program

/-! ### Allowed edits -/

variable {p : Program} {e : Rearrangement Operation}

/-- An allowed edit keeps the sequence the list of the live operations. -/
theorem Program.Accounted.apply (hp : p.Accounted) (h : e.Allowed p) : (e.apply p).Accounted := by
  cases e with
  | append parent op => exact hp.insertAt (hp.holds h) _ op
  | insertAt parent i op => exact hp.insertAt (hp.holds h.1) i op
  | insertBefore anchor op =>
      obtain ⟨parent, i, hplace, -, hholds⟩ := hp.tree.exists_place ((hp.live anchor).2 h)
      rw [Rearrangement.apply, Program.insertBefore, hplace]
      exact hp.insertAt hholds i op
  | insertAfter anchor op =>
      obtain ⟨parent, i, hplace, -, hholds⟩ := hp.tree.exists_place ((hp.live anchor).2 h)
      rw [Rearrangement.apply, Program.insertAfter, hplace]
      exact hp.insertAt hholds (i + 1) op
  | erase id => exact hp.erase h
  | moveTo id parent =>
      exact hp.moveTo ((hp.live id).2 h.1) (hp.holds h.2.1) h.2.2

/-- What an allowed edit does to the sequence. -/
theorem Rearrangement.reorders (hp : p.Accounted) (h : e.Allowed p) :
    e.Reorders p (e.apply p) := by
  cases e with
  | append parent op => exact hp.tree.walk_append (hp.holds h) op
  | insertAt parent i op =>
      rw [Rearrangement.Reorders]
      split
      · rename_i anchor hanchor
        obtain ⟨A, B, hwalk, hbefore, -⟩ := hp.tree.walk_insertAt (hp.holds h.1) hanchor op
        exact ⟨A, p.walkIn anchor ++ B, hwalk, hbefore⟩
      · rename_i hnone
        have hend : i = (p.children parent).length :=
          Nat.le_antisymm h.2 (List.getElem?_eq_none_iff.1 hnone)
        subst hend
        exact hp.tree.walk_append (hp.holds h.1) op
  | insertBefore anchor op =>
      obtain ⟨parent, i, hplace, hlist, hholds⟩ := hp.tree.exists_place ((hp.live anchor).2 h)
      obtain ⟨A, B, hwalk, hbefore, -⟩ := hp.tree.walk_insertAt hholds hlist op
      rw [Rearrangement.Reorders, Rearrangement.apply, Program.insertBefore, hplace]
      exact ⟨A, p.walkIn anchor ++ B, hwalk, hbefore⟩
  | insertAfter anchor op =>
      obtain ⟨parent, i, hplace, hlist, hholds⟩ := hp.tree.exists_place ((hp.live anchor).2 h)
      obtain ⟨A, B, hwalk, -, hbehind⟩ := hp.tree.walk_insertAt hholds hlist op
      rw [Rearrangement.Reorders, Rearrangement.apply, Program.insertAfter, hplace]
      exact ⟨A, B, hwalk, hbehind⟩
  | erase id => exact hp.tree.exists_interval ((hp.live id).2 h)
  | moveTo id parent =>
      exact hp.tree.walk_moveTo ((hp.live id).2 h.1) (hp.holds h.2.1) h.2.2

end TileFlow
