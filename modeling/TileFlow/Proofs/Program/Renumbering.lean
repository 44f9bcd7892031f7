import Mathlib.Data.List.Nodup
import Mathlib.Logic.Function.Basic
import TileFlow.Device.Placement
import TileFlow.Proofs.Forest.Place
import TileFlow.Proofs.Program.Arrangement
import TileFlow.Proofs.Program.Links

/-!
# Programs that are equal as trees

A program is renumbered when its operations are the ones of another program under other identities,
besides operations that nothing leads to. Whatever is asked of both programs has answers that agree
up to the renumbering, and every edit made at the same place of both keeps them so: the operations
to come are numbered in step, and what is erased is still read alike.

Two programs are equal as trees when some renumbering of operations makes the body of one that of
the other, whatever has been erased from either before. Both then have the same compact form, in
which the operations of the body are numbered in pre-order and there are no others: each of the
programs is a renumbering of it, so that what holds of renumberings holds between the two.

## Main definitions

* `Program.Renumbers`: a program as it is found in another one under other identities.
* `Program.SameTree`: programs that are equal as trees.
* `Program.compact`: the operations of the body alone, numbered in pre-order.

## Main results

* `Program.Renumbers.locate?`, `Program.Renumbers.walkIn`, `Program.Renumbers.owningTile?`: queries.
* `Program.Renumbers.insertAt`, `Program.Renumbers.erase`, `Program.Renumbers.moveTo`,
  `Program.Renumbers.modify`: edits.
* `Program.renumbers_compact`: a program is a renumbering of its compact form.
* `Program.sameTree_iff_compact_eq`: programs are equal as trees when they have one compact form.
* `Program.Renumbers.sameTree`: renumberings of one program are equal as trees.
-/

/-! ## Renumberings -/

namespace TileFlow

namespace Forest.Embeds

variable {α β : Type} [DecidableEq α] [DecidableEq β] {k : α → β} {f f' : Forest α}
    {g g' : Forest β}

/-- Only what is below each label counts. -/
theorem congr (h : Embeds k f g) (hf : ∀ a, f'.below? a = f.below? a)
    (hg : ∀ b, g'.below? b = g.below? b) : Embeds k f' g' where
  below a := by rw [hf, hg, h.below]
  apart b hb m hm := h.apart b hb m (hg b ▸ hm)

end Forest.Embeds

namespace Program

variable {r : OpId → OpId} {p q : Program} {a id : OpId}

/-- Whether a program is found in another one under other identities: those that the first one does
not have yet are numbered on from the last one in both. -/
structure Renumbers (r : OpId → OpId) (p q : Program) : Prop where
  injective : Function.Injective r
  tree : p.Tree
  host : q.Tree
  live : ∀ id ∈ p.walk, p.isLive id = true
  fresh : ∀ n, r (p.slots.size + n) = q.slots.size + n
  slot : ∀ id, q.slots[r id]? = p.slots[id]?
  body : q.body = p.body.map r
  aside : Forest.Embeds r (asideForest p.detached) (asideForest q.detached)
  attributes : q.attributes = p.attributes

namespace Renumbers

/-! ### Operations and links -/

/-- Renumbered operations are the same operations. -/
theorem op (h : p.Renumbers r q) (id : OpId) : q.op (r id) = p.op id := by
  rw [Program.op, h.slot, Program.op]

/-- Renumbered operations are live when they were. -/
theorem isLive (h : p.Renumbers r q) (id : OpId) : q.isLive (r id) = p.isLive id := by
  rw [Program.isLive, h.slot, Program.isLive]

/-- The whole of a program is embedded in that of the renumbered one. -/
theorem whole (h : p.Renumbers r q) : Forest.Embeds r p.whole q.whole := by
  rw [Program.whole, Program.whole, h.body]
  exact h.aside.map_append h.injective p.body

/-- What is below a renumbered operation is what was below it, renumbered. -/
theorem below (h : p.Renumbers r q) (id : OpId) : q.below (r id) = (p.below id).map r := by
  rw [below_eq, below_eq, h.whole.below]
  cases p.whole.below? id <;> rfl

/-- The operations at the top are renumbered in their order. -/
theorem roots (h : p.Renumbers r q) : q.body.roots = p.body.roots.map r := by
  rw [h.body, Forest.roots_map]

/-- The children of a renumbered operation are its children, renumbered. -/
theorem children (h : p.Renumbers r q) (parent : Option OpId) :
    q.children (parent.map r) = (p.children parent).map r := by
  cases parent with
  | none => exact h.roots
  | some a => exact (congrArg Forest.roots (h.below a)).trans (Forest.roots_map r _)

/-- The body is walked in the same order under the new numbers. -/
theorem walk (h : p.Renumbers r q) : q.walk = p.walk.map r := by
  rw [Program.walk, h.body, Forest.preorder_map, Program.walk]

/-- What is below an operation is walked in the same order under the new numbers. -/
theorem walkIn (h : p.Renumbers r q) (id : OpId) : q.walkIn (r id) = (p.walkIn id).map r := by
  rw [Program.walkIn, h.below, Forest.preorder_map, Program.walkIn]

/-- Whatever lists an operation that is found under another identity is found so itself. -/
theorem exists_parent (h : p.Renumbers r q) {b : OpId} (hid : r id ∈ q.children (some b)) :
    ∃ a, r a = b ∧ id ∈ p.children (some a) := by
  rw [children_some] at hid
  rcases hb : q.whole.below? b with _ | g
  · rw [hb] at hid
    cases hid
  · rw [hb] at hid
    have hmem := Forest.mem_preorder_of_mem_roots hid
    obtain ⟨a, rfl⟩ : b ∈ Set.range r := by
      by_contra hrange
      exact h.whole.apart b hrange g hb id hmem
    have hlist := h.children (some a)
    rw [Option.map_some, children_some, hb] at hlist
    rw [Option.map_some, Option.getD_some] at hid hlist
    rw [hlist, List.mem_map_of_injective h.injective] at hid
    exact ⟨a, rfl, hid⟩

/-- The place of an operation, with the new identity of its parent. -/
theorem locate? (h : p.Renumbers r q) (id : OpId) :
    q.locate? (r id) = (p.locate? id).map fun place => (place.1.map r, place.2) := by
  rcases hp : p.locate? id with _ | ⟨parent, i⟩
  · rcases hq : q.locate? (r id) with _ | ⟨parent', i⟩
    · rfl
    · -- A place in the host is one of the program itself.
      have hmem := List.mem_of_getElem? (h.host.locate?_eq_some_iff.1 hq)
      obtain ⟨parent, hid⟩ : ∃ parent, id ∈ p.children parent := by
        cases parent' with
        | none =>
            have hroots := h.children none
            rw [Option.map_none] at hroots
            rw [hroots, List.mem_map_of_injective h.injective] at hmem
            exact ⟨none, hmem⟩
        | some b =>
            obtain ⟨a, -, hid⟩ := h.exists_parent hmem
            exact ⟨some a, hid⟩
      obtain ⟨j, hj⟩ := List.getElem?_of_mem hid
      rw [h.tree.locate?_eq_some_iff.2 hj] at hp
      cases hp
  · refine h.host.locate?_eq_some_iff.2 ?_
    rw [h.children, List.getElem?_map, h.tree.locate?_eq_some_iff.1 hp, Option.map_some]

/-! ### Operations by what they are -/

section Search

variable (h : p.Renumbers r q) (l : List OpId)

include h

/-- A filter by operations finds the same ones under the new numbers. -/
theorem filter_op (test : Operation → Bool) :
    (l.map r).filter (fun id => test (q.op id)) = (l.filter fun id => test (p.op id)).map r := by
  rw [List.filter_map]
  exact congrArg _ (List.filter_congr fun id _ => congrArg test (h.op id))

/-- A search by operations finds the same one under its new number. -/
theorem find?_op (test : Operation → Bool) :
    (l.map r).find? (fun id => test (q.op id)) = (l.find? fun id => test (p.op id)).map r := by
  rw [List.find?_map]
  exact congrArg (Option.map r ∘ (List.find? · l)) (funext fun id => congrArg test (h.op id))

/-- What is read off operations does not depend on their numbers. -/
theorem filterMap_op {α : Type} (f : Operation → Option α) :
    (l.map r).filterMap (fun id => f (q.op id)) = l.filterMap fun id => f (p.op id) := by
  rw [List.filterMap_map]
  exact congrArg (List.filterMap · l) (funext fun id => congrArg f (h.op id))

/-- A list of renumbered operations stands for the same operations. -/
theorem map_op : (l.map r).map q.op = l.map p.op := by
  rw [List.map_map]
  exact List.map_congr_left fun id _ => h.op id

end Search

/-- The operations with a name are found under the new numbers. -/
theorem findAll (h : p.Renumbers r q) (name : String) :
    q.findAll name = (p.findAll name).map r := by
  rw [Program.findAll, h.walk, h.filter_op _ (·.is name), Program.findAll]

/-- The operations with a name below another are found under the new numbers. -/
theorem findIn (h : p.Renumbers r q) (a : OpId) (name : String) :
    q.findIn (r a) name = (p.findIn a name).map r := by
  rw [Program.findIn, h.walkIn, h.filter_op _ (·.is name), Program.findIn]

/-- The devices are found under the new numbers. -/
theorem devices (h : p.Renumbers r q) : q.devices = p.devices.map r := by
  rw [Program.devices, h.roots, h.filter_op _ (·.is "aie.device"), Program.devices]

/-- The operation that defines a value is found under its new number. -/
theorem definingOp? (h : p.Renumbers r q) (value : String) :
    q.definingOp? value = (p.definingOp? value).map r := by
  rw [Program.definingOp?, h.walk, h.find?_op _ fun op => op.result == some value,
    Program.definingOp?]

/-- A renumbered program defines the same values. -/
theorem definedValues (h : p.Renumbers r q) : q.definedValues = p.definedValues := by
  rw [Program.definedValues, h.walk, h.filterMap_op _ (·.result), Program.definedValues]

/-- A renumbered program has the same fresh values. -/
theorem freshValue (h : p.Renumbers r q) (base : String) :
    q.freshValue base = p.freshValue base := by
  rw [Program.freshValue, h.definedValues, Program.freshValue]

/-! ### Placement -/

/-- A renumbered device is of the same family. -/
theorem modelOf (h : p.Renumbers r q) (device : OpId) : q.modelOf (r device) =
    p.modelOf device := by
  rw [Program.modelOf, h.op, Program.modelOf]

/-- A value names the same tile in a renumbered program. -/
theorem tileOf? (h : p.Renumbers r q) (value : String) : q.tileOf? value = p.tileOf? value := by
  rw [Program.tileOf?, Program.tileOf?, h.definingOp?]
  cases p.definingOp? value with
  | none => rfl
  | some id => simp only [Option.map_some, h.op]

/-- A renumbered operation sits on the same tile. -/
theorem owningTile? (h : p.Renumbers r q) (id : OpId) :
    q.owningTile? (r id) = p.owningTile? id := by
  have htile : q.tileOf? = p.tileOf? := funext h.tileOf?
  rw [Program.owningTile?, Program.owningTile?, h.op]
  cases (p.op id).operandValue? 0 with
  | none => rfl
  | some value =>
      simp only [h.definingOp?]
      cases p.definingOp? value with
      | none => rfl
      | some definition => simp only [Option.map_some, h.op, htile]

/-! ### Changes of operations -/

/-- A change of an operation is the same change under its new number. -/
theorem modify (h : p.Renumbers r q) (id : OpId) (f : Operation → Operation) :
    (p.modify id f).Renumbers r (q.modify (r id) f) :=
  { h with
    tree := h.tree.modify id f
    host := h.host.modify (r id) f
    live := fun j hj => (isLive_modify id j f).trans (h.live j hj)
    fresh := by simpa using h.fresh
    slot := fun j => by
      rw [Program.modify, Array.getElem?_modify, Program.modify, Array.getElem?_modify, h.slot]
      simp only [h.injective.eq_iff] }

/-! ### Creation -/

end Renumbers

/-- The slots after a creation: the new one is the last one, and the parent owns a region. -/
theorem slots_insertAt_some (p : Program) (a : OpId) (i : Nat) (op : Operation) :
    (p.insertAt (some a) i op).2.slots = (p.slots.push { op }).modify a fun s =>
      { s with op := { s.op with hasRegion := true } } := rfl

/-- A creation below an operation set aside is one in the trees set aside. -/
theorem Tree.aside_insertAt (hp : p.Tree) (i : Nat) (op : Operation) :
    asideForest (p.insertAt (some a) i op).2.detached =
      (asideForest p.detached).update a (·.insertAt i p.slots.size .nil) := by
  rw [← asideForest_update hp.distinct_aside, detached_insertAt_some]

namespace Renumbers

/-- The next operation to come has the next number in both. -/
theorem size (h : p.Renumbers r q) : r p.slots.size = q.slots.size :=
  h.fresh 0

/-- The entry of a new operation comes under the number after the last one in both programs. -/
theorem getElem?_push (h : p.Renumbers r q) (op : Operation) (id : OpId) :
    (q.slots.push { op })[r id]? = (p.slots.push { op })[id]? := by
  rw [Array.getElem?_push, Array.getElem?_push, h.slot, ← h.size]
  simp only [h.injective.eq_iff]

/-- A creation is the same creation in a renumbered program. -/
theorem insertAt (h : p.Renumbers r q) (parent : Option OpId) (i : Nat) (op : Operation) :
    (p.insertAt parent i op).2.Renumbers r (q.insertAt (parent.map r) i op).2 where
  injective := h.injective
  tree := h.tree.insertAt parent i op
  host := h.host.insertAt _ i op
  live id hid := by
    rw [isLive_insertAt]
    exact (((created_insertAt h.tree.sound parent i op).walk id).1 hid).imp (h.live id) (·.1)
  fresh n := by
    rw [size_insertAt, size_insertAt, Nat.add_assoc, h.fresh, Nat.add_assoc]
  slot id := by
    cases parent with
    | none => exact h.getElem?_push op id
    | some a =>
        rw [Option.map_some, slots_insertAt_some, slots_insertAt_some, Array.getElem?_modify,
          Array.getElem?_modify, h.getElem?_push]
        simp only [h.injective.eq_iff]
  body := by
    cases parent with
    | none =>
        rw [Option.map_none, body_insertAt_none, body_insertAt_none, Forest.map_insertAt, h.body,
          h.size]
        rfl
    | some a =>
        rw [Option.map_some, body_insertAt_some, body_insertAt_some, h.body, ← h.size]
        exact Forest.map_update h.injective (fun g => (Forest.map_insertAt r g .nil i _).symm) _ _
  aside := by
    cases parent with
    | none => exact h.aside
    | some a =>
        have hp := (h.tree.insertAt (some a) i op).distinct_aside
        have hq := (h.host.insertAt (some (r a)) i op).distinct_aside
        rw [h.tree.aside_insertAt] at hp
        rw [h.host.aside_insertAt] at hq
        rw [Option.map_some, h.tree.aside_insertAt, h.host.aside_insertAt]
        refine h.aside.update h.injective h.tree.distinct_aside h.host.distinct_aside hp hq
          (fun g => ?_) fun g b hb => Forest.mem_preorder_insertAt.2 (.inr (.inr hb))
        rw [← h.size]
        exact (Forest.map_insertAt r g .nil i _).symm
  attributes := by
    cases parent <;> exact h.attributes

/-- A creation behind siblings is the same creation in a renumbered program. -/
theorem append (h : p.Renumbers r q) (parent : Option OpId) (op : Operation) :
    (p.append parent op).2.Renumbers r (q.append (parent.map r) op).2 := by
  rw [Program.append, Program.append, h.children, List.length_map]
  exact h.insertAt parent _ op

/-- A creation before another operation is the same creation in a renumbered program. -/
theorem insertBefore (h : p.Renumbers r q) (anchor : OpId) (op : Operation) :
    (p.insertBefore anchor op).2.Renumbers r (q.insertBefore (r anchor) op).2 := by
  rw [Program.insertBefore, Program.insertBefore, h.locate?]
  cases p.locate? anchor with
  | none => exact h.append none op
  | some place => exact h.insertAt place.1 place.2 op

/-! ### Removal -/

end Renumbers

/-- A removal takes the tree of an operation out of those set aside too. -/
theorem Tree.aside_remove (hp : p.Tree) (id : OpId) :
    asideForest (p.remove id).detached = (asideForest p.detached).remove id :=
  asideForest_remove hp.distinct_aside

namespace Renumbers

/-- The new number of an operation that was created is one that was created. -/
theorem lt_size (h : p.Renumbers r q) (hid : id < p.slots.size) : r id < q.slots.size := by
  by_contra hge
  obtain ⟨n, hn⟩ := Nat.exists_eq_add_of_le (Nat.le_of_not_lt hge)
  rw [← h.fresh] at hn
  exact Nat.not_lt.2 (Nat.le_add_right _ n) (h.injective hn ▸ hid)

/-- An erasure is the same erasure in a renumbered program. -/
theorem erase (h : p.Renumbers r q) (hid : id < p.slots.size) :
    (p.erase id).Renumbers r (q.erase (r id)) :=
  {
    injective := h.injective
    tree := h.tree.erase hid
    host := h.host.erase (h.lt_size hid)
    live := fun j hj => by
      obtain ⟨hmem, hne, hnot⟩ := (mem_walk_erase h.tree.sound).1 hj
      exact (isLive_erase p id j).2 ⟨h.live j hmem, hne, hnot⟩
    fresh := by simpa using h.fresh
    slot := fun j => by
      rw [slot_erase, slot_erase, h.slot, h.walkIn]
      simp only [h.injective.eq_iff, List.mem_map_of_injective h.injective]
    body := by rw [body_erase, body_erase, h.body, Forest.map_remove h.injective]
    aside := by
      have hrest := h.aside.remove h.injective h.tree.distinct_aside h.host.distinct_aside id
      refine (hrest.map_append h.injective (.single id (p.below id))).congr
        (fun c => ?_) fun c => ?_
      · rw [h.tree.below?_aside_erase hid, h.tree.aside_remove]
        rfl
      · rw [h.host.below?_aside_erase (h.lt_size hid), h.host.aside_remove, h.below]
        rfl
    attributes := h.attributes }

/-! ### Moves -/

end Renumbers

/-- A move changes the entry of the new parent, which owns a region. -/
theorem slots_moveTo (p : Program) (id a : OpId) :
    (p.moveTo id (some a)).slots = p.slots.modify a fun s =>
      { s with op := { s.op with hasRegion := true } } := rfl

/-- A move takes a tree out of those set aside, or puts it below one of them. -/
theorem Tree.aside_moveTo (hp : p.Tree) (hid : id < p.slots.size) (a : OpId) :
    asideForest (p.moveTo id (some a)).detached =
      ((asideForest p.detached).remove id).update a (· ++ .single id (p.below id)) := by
  rw [← hp.aside_remove]
  exact asideForest_update (hp.remove hid).distinct_aside _

namespace Renumbers

/-- A tree is moved below an operation at the top. -/
theorem moveTo (h : p.Renumbers r q) (ha : a ∈ p.body.roots) (hid : id ∈ p.walk) (hne : id ≠ a) :
    (p.moveTo id (some a)).Renumbers r (q.moveTo (r id) (some (r a))) := by
  have hlt := h.tree.sound.created id hid
  have hmap (f : Forest OpId) : f.map r ++ .single (r id) (q.below (r id)) =
      (f ++ .single id (p.below id)).map r := by
    rw [h.below, Forest.map_append]
    rfl
  have htree := h.tree.moveTo hlt (some a)
  have hhost := h.host.moveTo (h.lt_size hlt) (some (r a))
  have hp := (h.tree.remove hlt).distinct_aside
  have hq := (h.host.remove (h.lt_size hlt)).distinct_aside
  exact {
    injective := h.injective
    tree := htree
    host := hhost
    live := fun j hj => by
      rw [isLive_moveTo]
      exact h.live j (((h.tree.moveTo_root ha hid hne).2 j).1 hj)
    fresh := by simpa using h.fresh
    slot := fun j => by
      rw [slots_moveTo, slots_moveTo, Array.getElem?_modify, Array.getElem?_modify, h.slot]
      simp only [h.injective.eq_iff]
    body := by
      rw [body_moveTo, body_moveTo, h.body, Forest.map_remove h.injective,
        Forest.map_update h.injective hmap]
    aside := by
      have hrest := h.aside.remove h.injective h.tree.distinct_aside h.host.distinct_aside id
      have hp' := htree.distinct_aside
      have hq' := hhost.distinct_aside
      rw [h.tree.aside_moveTo hlt] at hp' ⊢
      rw [h.host.aside_moveTo (h.lt_size hlt)] at hq' ⊢
      rw [h.tree.aside_remove] at hp
      rw [h.host.aside_remove] at hq
      exact hrest.update h.injective hp hq hp' hq' hmap fun g b hb => by
        rw [Forest.preorder_append]
        exact List.mem_append_left _ hb
    attributes := h.attributes }

end Renumbers

end Program

end TileFlow

/-! ## One compact form -/

namespace TileFlow.Program

variable {p q : Program}

/-- Whether the bodies of two programs are the same up to a renumbering of their operations, none of
which is erased. The programs may have been edited in any other way before: what nothing at the top
leads to does not count. An operation without a region is not the same as one with an empty region,
as a declaration is not a definition. -/
structure SameTree (p q : Program) : Prop where
  left : p.Tree
  right : q.Tree
  live_left : ∀ id ∈ p.walk, p.isLive id = true
  live_right : ∀ id ∈ q.walk, q.isLive id = true
  attributes : q.attributes = p.attributes
  renumbering : ∃ r : OpId → OpId, q.body = p.body.map r ∧ ∀ id ∈ p.walk, q.op (r id) = p.op id

/-! ### The compact form -/

/-- The operations of the body in pre-order, and no others. -/
def compact (p : Program) : Program where
  slots := (p.walk.map fun id => { op := p.op id }).toArray
  body := p.body.map (p.walk.idxOf ·)
  attributes := p.attributes

/-- The identities that the operations of a compact form have in a program: first those of the body,
and then those to come. -/
def numbering (p : Program) (i : Nat) : Nat :=
  (p.walk[i]?).getD (p.slots.size + (i - p.walk.length))

/-- The first numbers of the numbering are given to the operations of the body in their order. -/
theorem numbering_lt {i : Nat} (hi : i < p.walk.length) : p.numbering i = p.walk[i] := by
  rw [numbering, List.getElem?_eq_getElem hi, Option.getD_some]

/-- Numbers behind those of the body go on behind the last one of the program. -/
theorem numbering_add (n : Nat) : p.numbering (p.walk.length + n) = p.slots.size + n := by
  rw [numbering, List.getElem?_eq_none (Nat.le_add_right _ _), Option.getD_none,
    Nat.add_sub_cancel_left]

/-- A number is that of an operation of the body, or one to come. -/
theorem numbering_cases (p : Program) (i : Nat) :
    (∃ h : i < p.walk.length, p.numbering i = p.walk[i]) ∨
      ∃ n, i = p.walk.length + n ∧ p.numbering i = p.slots.size + n := by
  rcases Nat.lt_or_ge i p.walk.length with hlt | hge
  · exact .inl ⟨hlt, numbering_lt hlt⟩
  · obtain ⟨n, rfl⟩ := Nat.exists_eq_add_of_le hge
    exact .inr ⟨n, rfl, numbering_add n⟩

/-- An operation of the body has the number of its place. -/
theorem numbering_idxOf {id : OpId} (hid : id ∈ p.walk) : p.numbering (p.walk.idxOf id) = id := by
  rw [numbering_lt (List.idxOf_lt_length_of_mem hid), List.getElem_idxOf]

/-- No two operations have the same number. -/
theorem Tree.numbering_injective (hp : p.Tree) : Function.Injective p.numbering := by
  intro i j hij
  rcases p.numbering_cases i with ⟨hi, hni⟩ | ⟨n, rfl, hni⟩ <;>
    rcases p.numbering_cases j with ⟨hj, hnj⟩ | ⟨m, rfl, hnj⟩ <;> rw [hni, hnj] at hij
  · exact (List.Nodup.getElem_inj_iff hp.distinct_body).1 hij
  · have hlt := hp.sound.created _ (List.getElem_mem hi)
    rw [hij] at hlt
    exact absurd hlt (Nat.not_lt.2 (Nat.le_add_right _ m))
  · have hlt := hp.sound.created _ (List.getElem_mem hj)
    rw [← hij] at hlt
    exact absurd hlt (Nat.not_lt.2 (Nat.le_add_right _ n))
  · omega

/-- The numbers of a compacted program follow its body. -/
theorem Tree.walk_compact (hp : p.Tree) : p.compact.walk = List.range p.walk.length := by
  have hnodup : p.walk.Nodup := hp.distinct_body
  rw [walk, compact, Forest.preorder_map]
  refine List.ext_getElem (by simp [walk]) fun i hi hi' => ?_
  rw [List.getElem_map, List.getElem_range]
  exact hnodup.idxOf_getElem i _

/-- A compacted program is a tree. -/
theorem Tree.compact (hp : p.Tree) : p.compact.Tree := by
  refine WellFormed.tree ⟨?_, fun id hid => ?_⟩ rfl
  · show p.compact.walk.Nodup
    rw [hp.walk_compact]
    exact List.nodup_range
  · rw [hp.walk_compact, List.mem_range] at hid
    simpa [Program.compact] using hid

/-- The slot of an operation that is not erased. -/
theorem slot_of_isLive {id : OpId} (h : p.isLive id = true) :
    p.slots[id]? = some { op := p.op id } := by
  rw [isLive] at h
  rw [op]
  rcases hs : p.slots[id]? with _ | ⟨op, erased⟩
  · rw [hs] at h
    cases h
  · rw [hs, Option.map_some, Option.getD_some, Bool.not_eq_true'] at h
    exact congrArg (fun erased => some (Slot.mk op erased)) h

/-- A program is a renumbering of its compact form. -/
theorem renumbers_compact (hp : p.Tree) (hlive : ∀ id ∈ p.walk, p.isLive id = true) :
    p.compact.Renumbers p.numbering p where
  injective := hp.numbering_injective
  tree := hp.compact
  host := hp
  live id hid := by
    rw [hp.walk_compact, List.mem_range] at hid
    simp [Program.compact, isLive, List.getElem?_eq_getElem hid]
  fresh n := by
    have hsize : p.compact.slots.size = p.walk.length := by simp [Program.compact]
    rw [hsize, numbering_add]
  slot i := by
    rcases p.numbering_cases i with ⟨hi, hni⟩ | ⟨n, rfl, hni⟩ <;> rw [hni]
    · rw [slot_of_isLive (hlive _ (List.getElem_mem hi))]
      simp [Program.compact, List.getElem?_eq_getElem hi]
    · simp [Program.compact]
  body := by
    rw [Program.compact, Forest.map_map]
    exact (Forest.map_eq_self fun id hid => numbering_idxOf hid).symm
  aside := by
    -- The trees set aside have neither an operation of the body nor one that is to come.
    refine .nil_left fun i hi => ?_
    obtain ⟨d, hd, hid⟩ := mem_asideForest.1 hi
    obtain ⟨hlt, hnot⟩ := hp.sound.aside d hd _ hid
    rcases p.numbering_cases i with ⟨hi, hni⟩ | ⟨n, rfl, hni⟩ <;> rw [hni] at hlt hnot
    · exact hnot (List.getElem_mem hi)
    · exact Nat.not_lt.2 (Nat.le_add_right _ n) hlt
  attributes := rfl

/-! ### Equal trees -/

/-- Programs that are equal as trees have one compact form. -/
theorem SameTree.compact_eq (h : p.SameTree q) : p.compact = q.compact := by
  obtain ⟨r, hbody, hop⟩ := h.renumbering
  have hwalk : q.walk = p.walk.map r := by rw [walk, hbody, Forest.preorder_map, walk]
  have hnodup : (p.walk.map r).Nodup := hwalk ▸ h.right.distinct_body
  have hops : (p.walk.map r).map (fun id => ({ op := q.op id } : Slot)) =
      p.walk.map fun id => { op := p.op id } := by
    rw [List.map_map]
    exact List.map_congr_left fun id hid => congrArg (Slot.mk · false) (hop id hid)
  have hplace : ∀ id ∈ p.walk, p.walk.idxOf id = (p.walk.map r).idxOf (r id) := fun id hid => by
    have hlt := List.idxOf_lt_length_of_mem hid
    have := hnodup.idxOf_getElem (p.walk.idxOf id) (by simpa using hlt)
    rw [List.getElem_map, List.getElem_idxOf] at this
    exact this.symm
  rw [compact, compact, hwalk, hops, hbody, Forest.map_map, h.attributes]
  exact congrArg (Program.mk _ · [] _) (Forest.map_congr hplace)

/-- What renumberings of one program have in common programs that are equal as trees have. -/
theorem SameTree.eq {α : Type} {f : Program → α} (h : p.SameTree q)
    (hf : ∀ r c p, Renumbers r c p → f p = f c) : f p = f q := by
  rw [hf _ _ _ (renumbers_compact h.left h.live_left),
    hf _ _ _ (renumbers_compact h.right h.live_right), h.compact_eq]

/-- Renumberings of one program are equal as trees. -/
theorem Renumbers.sameTree {r r' : OpId → OpId} {c : Program} (h : c.Renumbers r p)
    (h' : c.Renumbers r' q) : p.SameTree q := by
  have hinv : ∀ id, r' (Function.invFun r (r id)) = r' id := fun id =>
    congrArg r' (Function.leftInverse_invFun h.injective id)
  have hlive {r p} (h : c.Renumbers r p) : ∀ id ∈ p.walk, p.isLive id = true := fun id hid => by
    rw [h.walk] at hid
    obtain ⟨j, hj, rfl⟩ := List.mem_map.1 hid
    rw [h.isLive, h.live j hj]
  refine ⟨h.host, h'.host, hlive h, hlive h', by rw [h.attributes, h'.attributes],
    r' ∘ Function.invFun r, ?_, fun id hid => ?_⟩
  · rw [h.body, h'.body, Forest.map_map]
    exact Forest.map_congr fun id _ => (hinv id).symm
  · rw [h.walk] at hid
    obtain ⟨j, -, rfl⟩ := List.mem_map.1 hid
    rw [Function.comp_apply, hinv, h'.op, h.op]

/-- Programs without erased operations in their bodies are equal as trees when their compact forms
are the same. -/
theorem sameTree_iff_compact_eq (hp : p.Tree) (hq : q.Tree)
    (hpl : ∀ id ∈ p.walk, p.isLive id = true) (hql : ∀ id ∈ q.walk, q.isLive id = true) :
    p.SameTree q ↔ p.compact = q.compact := by
  refine ⟨SameTree.compact_eq, fun h => ?_⟩
  have hcompact := renumbers_compact hp hpl
  rw [h] at hcompact
  exact hcompact.sameTree (renumbers_compact hq hql)

end TileFlow.Program
