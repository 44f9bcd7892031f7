import TileFlow.Proofs.Program.Arrangement
import TileFlow.Proofs.Program.Evolution
import TileFlow.Proofs.Program.Replace

/-!
# The order of operations

An operation precedes another if it comes earlier in the pre-order of the body: it is above the
other one, or in an earlier tree. An edit leaves the order of the operations that stay as it is, and
the place of a new one is told by what it comes after.

An operation that is created is somewhere among the operations below those above it, and at the end
of them when it was appended; one that is erased is gone from them with all that was below it. The
others stay in their order, so that a list of the operations with a name changes only by operations
with that name.

## Main definitions

* `Program.Precedes`: the order.
* `Program.KnownAt`: values whose definition comes before an operation.

## Main results

* `Program.Edits.precedes`: the order of what stays.
* `Program.Edits.findIn_eq`: what is found in the same operations is found in the same order.
* `Program.KnownAt.resolves`: what is known stays known.
* `Program.Tree.insertBefore_eq`: what precedes an operation that is put before another.
* `Program.Tree.precedes_append`: what precedes an operation that is put last below another.
* `Program.exists_walkIn_insertAt`, `Program.exists_walkIn_erase`: what is below an operation.
* `Program.findIn_insertAt`, `Program.findIn_append_self`, `Program.findIn_erase`: the operations
  with a name.
-/

/-! ## What comes before an operation -/

namespace TileFlow

/-! ### Pairs in lists -/

section

variable {α : Type} {l l' : List α} {a b c : α}

/-- One item of a list comes before another when it is in what is left of it. -/
theorem pair_sublist_iff : [a, b].Sublist l ↔ ∃ A B, l = A ++ b :: B ∧ a ∈ A := by
  rw [List.cons_sublist_iff]
  constructor
  · rintro ⟨A, B, rfl, ha, hb⟩
    obtain ⟨C, D, rfl⟩ := List.append_of_mem (List.singleton_sublist.1 hb)
    exact ⟨A ++ C, D, by simp, List.mem_append_left _ ha⟩
  · rintro ⟨A, B, rfl, ha⟩
    exact ⟨A, b :: B, rfl, ha, List.singleton_sublist.2 List.mem_cons_self⟩

/-- Two items of a list come one after the other. -/
theorem pair_sublist_or (ha : a ∈ l) (hb : b ∈ l) (hab : a ≠ b) :
    [a, b].Sublist l ∨ [b, a].Sublist l := by
  obtain ⟨A, B, rfl⟩ := List.append_of_mem hb
  rcases List.mem_append.1 ha with ha | ha
  · exact .inl (pair_sublist_iff.2 ⟨A, B, rfl, ha⟩)
  · have haB : a ∈ B := (List.mem_cons.1 ha).resolve_left hab
    exact .inr (((List.singleton_sublist.2 haB).cons_cons b).trans (List.sublist_append_right A _))

/-- What comes before an item that stands in a list once is in what is left of it. -/
theorem mem_of_pair_sublist {A B : List α} (hl : (A ++ b :: B).Nodup)
    (hab : [a, b].Sublist (A ++ b :: B)) : a ∈ A := by
  obtain ⟨hb, -⟩ := List.nodup_cons.1 (List.nodup_append.1 hl).2.1
  obtain ⟨l₁, l₂, hsplit, h₁, h₂⟩ := List.sublist_append_iff.1 hab
  cases l₁ with
  | nil =>
      obtain rfl : [a, b] = l₂ := hsplit
      have hbB : [b].Sublist B := h₂.tail
      exact absurd (List.singleton_sublist.1 hbB) hb
  | cons c l₁ =>
      obtain ⟨rfl, -⟩ := List.cons.inj hsplit
      exact h₁.subset List.mem_cons_self

/-- What comes after an item that stands in a list once is in what is right of it. -/
theorem mem_right_of_pair_sublist {A B : List α} (hl : (A ++ a :: B).Nodup)
    (hab : [a, b].Sublist (A ++ a :: B)) : b ∈ B := by
  have haA : a ∉ A := fun ha => (List.nodup_append.1 hl).2.2 a ha a List.mem_cons_self rfl
  obtain ⟨l₁, l₂, hsplit, h₁, h₂⟩ := List.sublist_append_iff.1 hab
  cases l₁ with
  | nil =>
      obtain rfl : [a, b] = l₂ := hsplit
      exact List.singleton_sublist.1 (List.cons_sublist_cons.1 h₂)
  | cons c l₁ =>
      obtain ⟨rfl, -⟩ := List.cons.inj hsplit
      exact absurd (h₁.subset List.mem_cons_self) haA

/-- In a list without repetition the order of two elements is transitive. -/
theorem pair_sublist_trans (hl : l.Nodup) (hab : [a, b].Sublist l) (hbc : [b, c].Sublist l) :
    [a, c].Sublist l := by
  obtain ⟨A, B, rfl, ha⟩ := pair_sublist_iff.1 hab
  have hc : c ∈ B := mem_right_of_pair_sublist hl hbc
  exact List.cons_sublist_iff.2 ⟨A, b :: B, rfl, ha,
    List.singleton_sublist.2 (List.mem_cons_of_mem _ hc)⟩

/-- In a list without repetition an element does not come before itself. -/
theorem ne_of_pair_sublist (hl : l.Nodup) (hab : [a, b].Sublist l) : a ≠ b := by
  have hpair : [a, b].Nodup := hl.sublist hab
  simpa using hpair

/-- In a list without repetition no two elements come before each other. -/
theorem pair_sublist_asymm (hl : l.Nodup) (hab : [a, b].Sublist l) : ¬ [b, a].Sublist l :=
  fun hba => ne_of_pair_sublist hl (pair_sublist_trans hl hab hba) rfl

/-- Items that stay in a list keep their order. -/
theorem pair_sublist_of_sublist (hl : l.Nodup) (h : l'.Sublist l) (hab : [a, b].Sublist l)
    (ha : a ∈ l') (hb : b ∈ l') : [a, b].Sublist l' :=
  (pair_sublist_or ha hb (ne_of_pair_sublist hl hab)).resolve_right fun hba =>
    pair_sublist_asymm hl hab (hba.trans h)

end

namespace Program

variable {rule : EditRule} {p q : Program} {a b c d x anchor : OpId}

/-- Whether an operation of the body comes before another one. -/
def Precedes (p : Program) (a b : OpId) : Prop :=
  [a, b].Sublist p.walk

instance : Decidable (p.Precedes a b) :=
  inferInstanceAs (Decidable ([a, b].Sublist p.walk))

/-- Whether an operation that comes before another one defines a value. -/
def KnownAt (p : Program) (x : OpId) (v : String) : Prop :=
  ∃ d, p.Precedes d x ∧ (p.op d).result = some v

namespace Precedes

/-- An operation that precedes another is part of the body. -/
theorem left_mem (h : p.Precedes a b) : a ∈ p.walk :=
  h.subset List.mem_cons_self

/-- An operation that another precedes is part of the body. -/
theorem right_mem (h : p.Precedes a b) : b ∈ p.walk :=
  h.subset (List.mem_cons_of_mem _ List.mem_cons_self)

/-- Precedence is transitive. -/
theorem trans (hp : p.Sound) (hab : p.Precedes a b) (hbc : p.Precedes b c) : p.Precedes a c :=
  pair_sublist_trans hp.distinct hab hbc

end Precedes

instance {v : String} : Decidable (p.KnownAt x v) :=
  decidable_of_iff (∃ d ∈ p.walk, p.Precedes d x ∧ (p.op d).result = some v)
    ⟨fun ⟨d, _, h⟩ => ⟨d, h⟩, fun ⟨d, h⟩ => ⟨d, h.1.left_mem, h⟩⟩

/-- What is known at an operation is known at those that it precedes. -/
theorem KnownAt.trans {v : String} (hp : p.Sound) (h : p.KnownAt a v) (hab : p.Precedes a b) :
    p.KnownAt b v := by
  obtain ⟨d, hd, hdv⟩ := h
  exact ⟨d, hd.trans hp hab, hdv⟩

/-- An operation precedes those below it. -/
theorem Sound.precedes_of_walkIn (hp : p.Sound) (ha : a ∈ p.walk) (hx : x ∈ p.walkIn a) :
    p.Precedes a x := by
  obtain ⟨g, hg, hbelow⟩ := exists_below ha
  obtain ⟨A, B, hwalk, -, -⟩ := Forest.exists_split hp.distinct hg
  rw [walkIn, hbelow] at hx
  have hpair : [a, x].Sublist (a :: (g.preorder ++ B)) :=
    (List.singleton_sublist.2 (List.mem_append_left B hx)).cons_cons a
  rw [Precedes, walk, hwalk]
  exact hpair.trans (List.sublist_append_right A _)

/-- What precedes an operation below another, and is not in its tree, precedes that one. -/
theorem Sound.precedes_of_precedes_walkIn (hp : p.Sound) (ha : a ∈ p.walk) (hx : x ∈ p.walkIn a)
    (hda : d ≠ a) (hd : d ∉ p.walkIn a) (hdx : p.Precedes d x) : p.Precedes d a := by
  refine (pair_sublist_or hdx.left_mem ha hda).resolve_right fun had => ?_
  obtain ⟨g, hg, hbelow⟩ := exists_below ha
  obtain ⟨A, B, hwalk, -, -⟩ := Forest.exists_split hp.distinct hg
  rw [walkIn, hbelow] at hx hd
  have hnodup : (A ++ a :: (g.preorder ++ B)).Nodup := hwalk ▸ hp.distinct
  -- What comes after the operation and is not below it comes after all that is below it.
  have hdB : d ∈ B := by
    have had' : [a, d].Sublist p.walk := had
    rw [walk, hwalk] at had'
    exact (List.mem_append.1 (mem_right_of_pair_sublist hnodup had')).resolve_left hd
  have hxd : [x, d].Sublist p.walk := by
    rw [walk, hwalk]
    have hpair : [x, d].Sublist (g.preorder ++ B) :=
      List.cons_sublist_iff.2 ⟨g.preorder, B, rfl, hx, List.singleton_sublist.2 hdB⟩
    exact (hpair.trans (List.sublist_cons_self a _)).trans (List.sublist_append_right A _)
  exact pair_sublist_asymm hp.distinct hdx hxd

/-- What is known below an operation is known there, or defined in its tree. -/
theorem KnownAt.of_walkIn {v : String} (h : p.KnownAt x v) (hp : p.Sound) (ha : a ∈ p.walk)
    (hx : x ∈ p.walkIn a) : p.KnownAt a v ∨ ∃ d ∈ p.interval a, (p.op d).result = some v := by
  obtain ⟨d, hd, hdv⟩ := h
  by_cases hin : d ∈ p.interval a
  · exact .inr ⟨d, hin, hdv⟩
  · rw [interval, List.mem_cons, not_or] at hin
    exact .inl ⟨d, hp.precedes_of_precedes_walkIn ha hx hin.1 hin.2 hd, hdv⟩

/-! ### Edits -/

/-- A creation adds one operation to the sequence, if any. -/
theorem Sound.walk_insertAt_sublist (hp : p.Sound) (parent : Option OpId) (i : Nat)
    (op : Operation) : p.walk.Sublist (p.insertAt parent i op).2.walk := by
  cases parent with
  | none =>
      rw [walk, walk, body_insertAt_none]
      obtain ⟨A, B, hold, hnew⟩ := Forest.preorder_insertAt p.body i p.slots.size .nil
      rw [hold, hnew]
      exact (List.Sublist.refl A).append (List.sublist_cons_self _ B)
  | some a =>
      rw [walk, walk, body_insertAt_some]
      by_cases ha : a ∈ p.walk
      · obtain ⟨g, hg, -⟩ := exists_below ha
        obtain ⟨A, B, hold, hnew⟩ :=
          Forest.preorder_update_insertAt hp.distinct hg i p.slots.size
        rw [hold, hnew]
        exact (List.Sublist.refl A).append (List.sublist_cons_self _ B)
      · rw [Forest.update_eq_self ha]

/-- An erasure only takes operations out of the sequence. -/
theorem Sound.walk_erase_sublist (hp : p.Sound) (x : OpId) : (p.erase x).walk.Sublist p.walk := by
  rw [walk, walk, body_erase]
  by_cases hx : x ∈ p.walk
  · obtain ⟨g, hg, -⟩ := exists_below hx
    obtain ⟨A, B, hwalk, -, hrem⟩ := Forest.exists_split hp.distinct hg
    rw [hwalk, hrem]
    exact (List.Sublist.refl A).append
      ((List.sublist_append_right _ B).trans (List.sublist_cons_self x _))
  · rw [Forest.remove_eq_self hx]

/-- An edit keeps the order of operations that stay. -/
theorem Precedes.edit (h : p.Precedes a b) (hp : p.Sound) (hedit : p.Edit rule q)
    (ha : a ∈ q.walk) (hb : b ∈ q.walk) : q.Precedes a b := by
  cases hedit with
  | create parent i op => exact List.Sublist.trans h (hp.walk_insertAt_sublist parent i op)
  | change id f => exact h
  | erase y => exact pair_sublist_of_sublist hp.distinct (hp.walk_erase_sublist y) h ha hb

/-- Operations that edits leave in the body keep their order. -/
theorem Edits.precedes (hp : p.Sound) (h : p.Edits rule q) (hab : p.Precedes a b)
    (ha : a ∈ q.walk) (hb : b ∈ q.walk) : q.Precedes a b := by
  induction h with
  | refl => exact hab
  | @tail r q hr hedit ih =>
      have hsound := Edits.sound hr hp
      have hev := hedit.evolves hsound
      have hold : ∀ id ∈ q.walk, id ∈ p.walk → id ∈ r.walk := fun id hid hidp =>
        hev.walk id hid (Nat.lt_of_lt_of_le (hp.created id hidp) (Edits.size_le hr hp))
      have har := hold a ha hab.left_mem
      have hbr := hold b hb hab.right_mem
      exact (ih har hbr).edit hsound hedit ha hb

/-- Edits that keep the operations that define values keep what is known. -/
theorem KnownAt.resolves {v : String} (hp : p.Sound) (h : p.KnownAt x v) (hedits : p.Edits rule q)
    (hresolves : q.Resolves p) (hx : x ∈ q.walk) : q.KnownAt x v := by
  obtain ⟨d, hd, hdv⟩ := h
  obtain ⟨hdq, hkeep⟩ := hresolves d hd.left_mem (by simp [hdv])
  exact ⟨d, hedits.precedes hp hd hdq hx, hkeep.result.symm.trans hdv⟩

/-- Edits leave the order of operations: what is listed afterwards is a part of a list from before,
if both lists are in the order of the body. -/
theorem Edits.sublist {ids ids' : List OpId} (hp : p.Sound) (h : p.Edits rule q)
    (hids : ids.Sublist p.walk) (hids' : ids'.Sublist q.walk) (hmem : ∀ id ∈ ids', id ∈ ids) :
    ids'.Sublist ids := by
  have hq := h.sound hp
  have hkept : (ids.filter fun id => id ∈ ids').Sublist ids := List.filter_sublist
  have hperm : ids'.Perm (ids.filter fun id => id ∈ ids') := by
    refine (List.perm_ext_iff_of_nodup (hids'.nodup hq.distinct)
      ((hkept.trans hids).nodup hp.distinct)).2 fun id => ?_
    rw [List.mem_filter, decide_eq_true_iff]
    exact ⟨fun hid => ⟨hmem id hid, hid⟩, (·.2)⟩
  have hold : (ids.filter fun id => id ∈ ids').Pairwise q.Precedes :=
    List.pairwise_iff_forall_sublist.2 fun hab => by
      have hwalk : ∀ id ∈ ids.filter fun id => id ∈ ids', id ∈ q.walk := fun id hid =>
        hids'.subset (of_decide_eq_true (List.mem_filter.1 hid).2)
      exact h.precedes hp (hab.trans (hkept.trans hids)) (hwalk _ (hab.subset List.mem_cons_self))
        (hwalk _ (hab.subset (List.mem_cons_of_mem _ List.mem_cons_self)))
  have hnew : ids'.Pairwise q.Precedes :=
    List.pairwise_iff_forall_sublist.2 fun hab => hab.trans hids'
  rw [hperm.eq_of_pairwise (fun _ _ _ _ hab hba => absurd hba (pair_sublist_asymm hq.distinct hab))
    hnew hold]
  exact hkept

/-- What is found in a device is in the order of the body. -/
theorem Sound.findIn_sublist (hp : p.Sound) (ha : a ∈ p.walk) (name : String) :
    (p.findIn a name).Sublist p.walk := by
  obtain ⟨g, hg, hbelow⟩ := exists_below ha
  obtain ⟨A, B, hwalk, -, -⟩ := Forest.exists_split hp.distinct hg
  rw [findIn, walkIn, hbelow, walk, hwalk]
  exact ((List.filter_sublist.trans (List.sublist_append_left _ B)).trans
    (List.sublist_cons_self a _)).trans (List.sublist_append_right A _)

/-- The operations with a name below one of the body are found in their order. -/
theorem Sound.pairwise_findIn (hp : p.Sound) (ha : a ∈ p.walk) (name : String) :
    (p.findIn a name).Pairwise p.Precedes :=
  List.pairwise_iff_forall_sublist.2 fun h => h.trans (hp.findIn_sublist ha name)

/-- Edits that leave the operations with a name in a device leave the list of them. -/
theorem Edits.findIn_eq {name : String} (hp : p.Sound) (h : p.Edits rule q) (ha : a ∈ p.walk)
    (haq : a ∈ q.walk) (hmem : ∀ id, id ∈ q.findIn a name ↔ id ∈ p.findIn a name) :
    q.findIn a name = p.findIn a name := by
  have hq := h.sound hp
  have hperm : (q.findIn a name).Perm (p.findIn a name) :=
    (List.perm_ext_iff_of_nodup (hq.nodup_findIn haq name) (hp.nodup_findIn ha name)).2 hmem
  exact (h.sublist hp (hp.findIn_sublist ha name) (hq.findIn_sublist haq name)
    fun id => (hmem id).1).eq_of_length hperm.length_eq

/-- Edits that leave devices alone leave the list of them. -/
theorem Edits.devices_eq (hrule : rule.SparesDevices) (hp : p.Sound) (h : p.Edits rule q) :
    q.devices = p.devices := by
  have hdevices : ∀ r : Program, r.devices.Sublist r.walk := fun r =>
    List.filter_sublist.trans (Forest.roots_sublist r.body)
  have hmem : ∀ id, id ∈ q.devices ↔ id ∈ p.devices := fun _ => h.mem_devices hrule hp
  have hperm : q.devices.Perm p.devices :=
    (List.perm_ext_iff_of_nodup ((hdevices q).nodup (h.sound hp).distinct)
      ((hdevices p).nodup hp.distinct)).2 hmem
  exact (h.sublist hp (hdevices p) (hdevices q) fun id => (hmem id).1).eq_of_length hperm.length_eq

/-! ### New operations -/

/-- Before an operation of the body there is a place in the body. What precedes the operation
precedes what is put there. -/
theorem Tree.insertBefore_eq (hp : p.Tree) (hanchor : anchor ∈ p.walk) (op : Operation) :
    ∃ parent i, p.insertBefore anchor op = p.insertAt parent i op ∧ p.Holds parent ∧
      (∀ a, parent = some a → anchor ∈ p.walkIn a) ∧
      (p.insertAt parent i op).2.Precedes p.slots.size anchor ∧
      ∀ d, p.Precedes d anchor → (p.insertAt parent i op).2.Precedes d p.slots.size := by
  obtain ⟨parent, i, hplace, hlist, hholds⟩ := hp.exists_place hanchor
  obtain ⟨A, B, hwalk, hnew, -⟩ := hp.walk_insertAt hholds hlist op
  rw [interval, List.cons_append] at hwalk hnew
  refine ⟨parent, i, by rw [Program.insertBefore, hplace], hholds, fun a ha => ?_, ?_,
    fun d hd => ?_⟩
  · subst ha
    exact mem_walkIn_of_mem_children (List.mem_of_getElem? hlist)
  · rw [Precedes, hnew]
    exact ((List.singleton_sublist.2 List.mem_cons_self).cons_cons _).trans
      (List.sublist_append_right A _)
  · have hnodup : p.walk.Nodup := hp.distinct_body
    have hpair : [d, anchor].Sublist p.walk := hd
    rw [hwalk] at hnodup hpair
    have hdA : d ∈ A := mem_of_pair_sublist hnodup hpair
    rw [Precedes, hnew, List.cons_sublist_iff]
    exact ⟨A, _, rfl, hdA, List.singleton_sublist.2 List.mem_cons_self⟩

/-- An operation and all below it precede what is put last below it. -/
theorem Tree.precedes_append (hp : p.Tree) (ha : a ∈ p.walk) (op : Operation)
    (hx : x ∈ p.interval a) : (p.append (some a) op).2.Precedes x p.slots.size := by
  have hholds : p.Holds (some a) := fun b hb => by cases hb; exact ha
  obtain ⟨A, B, -, ⟨front, hfront⟩, hnew⟩ := hp.walk_append hholds op
  rw [Precedes, hnew, List.cons_sublist_iff]
  exact ⟨A, _, rfl, hfront ▸ List.mem_append_right _ hx,
    List.singleton_sublist.2 List.mem_cons_self⟩

end Program

end TileFlow

/-! ## Operations below one, as a list -/

namespace TileFlow.Program

variable {p : Program} {a d x : OpId} {i : Nat} {op : Operation} {name : String}

/-! ### Creation -/

/-- A new operation is somewhere among those below the ones above it. -/
theorem exists_walkIn_insertAt (hp : p.Sound) (hd : d ∈ p.walk) (ha : a = d ∨ a ∈ p.walkIn d)
    (i : Nat) (op : Operation) : ∃ A B, p.walkIn d = A ++ B ∧
      (p.insertAt (some a) i op).2.walkIn d = A ++ p.slots.size :: B := by
  obtain ⟨g, hg, hbelow⟩ := exists_below hd
  rcases ha with rfl | ha
  · obtain ⟨A, B, hold, hnew⟩ := Forest.preorder_insertAt g i p.slots.size .nil
    refine ⟨A, B, by rw [walkIn, hbelow, hold], ?_⟩
    have hself : (p.insertAt (some a) i op).2.body.below? a =
        some (g.insertAt i p.slots.size .nil) := by
      rw [body_insertAt_some]
      exact Forest.below?_update_self hg _
    rw [walkIn, below_of_below? hself, hnew]
    rfl
  · rw [walkIn, hbelow] at ha
    obtain ⟨k, hk⟩ := Forest.mem_preorder_iff.1 ha
    obtain ⟨A, B, hold, hnew⟩ :=
      Forest.preorder_update_insertAt (hp.distinct.below hg).1 hk i p.slots.size
    refine ⟨A, B, by rw [walkIn, hbelow, hold], ?_⟩
    have habove : (p.insertAt (some a) i op).2.body.below? d =
        some (g.update a (·.insertAt i p.slots.size .nil)) := by
      rw [body_insertAt_some]
      exact Forest.below?_insertLeaf_of_mem hp.distinct hg hp.notMem_walk ha i
    rw [walkIn, below_of_below? habove, hnew]

/-- What is appended to an operation comes after all else below it. -/
theorem below_append (ha : a ∈ p.walk) (op : Operation) :
    (p.append (some a) op).2.below a = p.below a ++ .single p.slots.size .nil := by
  obtain ⟨g, hg, hbelow⟩ := exists_below ha
  have hself : (p.append (some a) op).2.body.below? a = some (g ++ .single p.slots.size .nil) := by
    rw [append, children, block, hbelow, body_insertAt_some, Forest.below?_update_self hg,
      Forest.insertAt_length_roots]
  rw [below_of_below? hself, hbelow]

/-- A new operation behind the children of another comes last below it. -/
theorem walkIn_append (ha : a ∈ p.walk) (op : Operation) :
    (p.append (some a) op).2.walkIn a = p.walkIn a ++ [p.slots.size] := by
  rw [walkIn, below_append ha, Forest.preorder_append]
  rfl

/-- A new operation behind the children of another is its last child. -/
theorem children_append (ha : a ∈ p.walk) (op : Operation) :
    (p.append (some a) op).2.children (some a) = p.children (some a) ++ [p.slots.size] := by
  rw [children, block, below_append ha, Forest.roots_eq, Forest.trees_append, List.map_append,
    ← Forest.roots_eq]
  rfl

/-- A new operation is in no list of operations with another name. -/
theorem findIn_insertAt (hp : p.Sound) (hd : d ∈ p.walk) (ha : a = d ∨ a ∈ p.walkIn d)
    (hname : op.is name = false) :
    (p.insertAt (some a) i op).2.findIn d name = p.findIn d name := by
  have hwalk : a ∈ p.walk := by
    rcases ha with rfl | ha
    · exact hd
    · exact hp.mem_walk_of_walkIn hd ha
  have hadds := adds_insertAt hp.toWellFormed hwalk i op
  obtain ⟨A, B, hold, hnew⟩ := exists_walkIn_insertAt hp hd ha i op
  have hsame : ∀ id ∈ A ++ B, ((p.insertAt (some a) i op).2.op id).is name = (p.op id).is name :=
    fun id hid => (hadds.old id (hp.mem_walk_of_walkIn hd (hold ▸ hid))).is name
  rw [findIn, findIn, hnew, hold, List.filter_append, List.filter_cons_of_neg (by
    rw [hadds.new, hname]; exact Bool.false_ne_true), ← List.filter_append]
  exact List.filter_congr hsame

/-- An operation that is appended is the last one of its name. -/
theorem findIn_append_self (hp : p.Sound) (ha : a ∈ p.walk) (hname : op.is name = true) :
    (p.append (some a) op).2.findIn a name = p.findIn a name ++ [p.slots.size] := by
  have hadds := adds_insertAt hp.toWellFormed ha (p.children (some a)).length op
  rw [findIn, walkIn_append ha, List.filter_append, findIn]
  refine congrArg₂ _ (List.filter_congr fun id hid => ?_) ?_
  · exact (hadds.old id (hp.mem_walk_of_walkIn ha hid)).is name
  · rw [append, List.filter_cons_of_pos (by rw [hadds.new, hname]), List.filter_nil]

/-! ### Erasure -/

/-- An operation that is erased is gone from those below the ones above it, with all below it. -/
theorem exists_walkIn_erase (hp : p.Tree) (hd : d ∈ p.walk) (hx : x ∈ p.walkIn d) :
    ∃ A B, p.walkIn d = A ++ x :: (p.walkIn x ++ B) ∧ (p.erase x).walkIn d = A ++ B := by
  have hself := hp.notMem_walkIn_self d
  obtain ⟨g, hg, hbelow⟩ := exists_below hd
  have hin := hx
  rw [walkIn, hbelow] at hin
  obtain ⟨k, hk⟩ := Forest.mem_preorder_iff.1 hin
  have hkx := below_of_below? (Forest.below?_trans hp.distinct_body hg hk)
  obtain ⟨A, B, hold, -, hnew⟩ := Forest.exists_split (hp.distinct_body.below hg).1 hk
  have hkeep : (p.erase x).body.below? d = some (g.remove x) := by
    rw [body_erase]
    refine Forest.below?_remove hp.distinct_body (by rintro rfl; exact hself hx) hg fun k'
      hk' hmem => ?_
    exact hself (hp.walkIn_trans hx (by rwa [walkIn, below_of_below? hk']))
  exact ⟨A, B, by rw [walkIn, walkIn, hbelow, hold, hkx],
    by rw [walkIn, below_of_below? hkeep, hnew]⟩

/-- The operations with a name, when one is erased below which there are none with it. -/
theorem findIn_erase (hp : p.Tree) (hd : d ∈ p.walk) (hx : x ∈ p.walkIn d)
    (hname : ∀ id ∈ p.walkIn x, (p.op id).is name = false) :
    (p.erase x).findIn d name = (p.findIn d name).filter (· ≠ x) := by
  obtain ⟨A, B, hold, hnew⟩ := exists_walkIn_erase hp hd hx
  have hnodup := hp.sound.nodup_walkIn hd
  rw [hold, List.nodup_append, List.nodup_cons] at hnodup
  obtain ⟨-, ⟨hxB, -⟩, hA⟩ := hnodup
  have hkeep : ∀ l : List OpId, x ∉ l →
      (l.filter fun id => (p.op id).is name).filter (· ≠ x) =
        l.filter fun id => (p.op id).is name :=
    fun l hl => List.filter_eq_self.2 fun id hid =>
      decide_eq_true fun heq => hl (heq ▸ (List.mem_filter.1 hid).1)
  have hnone : (p.walkIn x).filter (fun id => (p.op id).is name) = [] :=
    List.filter_eq_nil_iff.2 fun id hid => by simp [hname id hid]
  have hcons : ((x :: (p.walkIn x ++ B)).filter fun id => (p.op id).is name).filter (· ≠ x) =
      B.filter fun id => (p.op id).is name := by
    rw [List.filter_cons, List.filter_append, hnone, List.nil_append]
    split
    · rw [List.filter_cons_of_neg (by simp), hkeep B fun h => hxB (List.mem_append_right _ h)]
    · rw [hkeep B fun h => hxB (List.mem_append_right _ h)]
  rw [findIn, findIn, hnew, hold, List.filter_append, List.filter_append, List.filter_append, hcons,
    hkeep A fun h => hA x h x List.mem_cons_self rfl]
  simp only [op_erase]

end TileFlow.Program
