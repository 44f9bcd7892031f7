import TileFlow.Proofs.Forest.Expand
import TileFlow.Proofs.Program.Evolution
import TileFlow.Proofs.Program.Tree

/-!
# Operations in place of another one

An operation is replaced by others that are put before it, one after the other, before it is erased
with all below it. It may be in a tree set aside, when an operation above it was replaced earlier:
then the body shows nothing of it.

## Main definitions

* `Program.Linked`: an operation that has a place among others.
* `Program.putAll`, `Program.replace`: operations before another one, and in its place.
* `Program.PutsEach`: operations before another one that the programs at their turns tell.

## Main results

* `Program.body_replace`: the body in which an operation is replaced.
* `Program.Edits.leaf`: an operation without others below it that stays in the body.
* `Program.op_of_putAll`: the operations that are put before another one.
-/

namespace TileFlow.Program

variable {rule : EditRule} {p q r : Program} {x y id : OpId} {parent : Option OpId} {op : Operation}
  {ops : List Operation}

/-! ### Linked operations -/

/-- An operation of the body, or of a tree set aside of which it is not the root. -/
structure Linked (p : Program) (x : OpId) : Prop where
  mem : x ∈ p.whole.preorder
  inner : ∀ t ∈ p.detached, t.root ≠ x

/-- An operation of the body stands there at a place. -/
theorem Sound.linked (hp : p.Sound) (hx : x ∈ p.walk) : p.Linked x where
  mem := mem_whole_of_mem_walk hx
  inner t ht := by
    rintro rfl
    exact (hp.aside t ht t.root List.mem_cons_self).2 hx

namespace Linked

/-- An operation at a place was created. -/
theorem lt_size (h : p.Linked x) (hp : p.Tree) : x < p.slots.size :=
  hp.lt x h.mem

/-- A linked operation has a place. -/
theorem locate? (h : p.Linked x) : ∃ parent i, p.locate? x = some (parent, i) := by
  have hsome : (p.locate? x).isSome = true := by
    rw [Program.locate?, Option.isSome_or, Bool.or_eq_true]
    rcases List.mem_append.1 (preorder_whole p ▸ h.mem) with hwalk | haside
    · exact .inl (Forest.locateFrom?_isSome hwalk none 0)
    · obtain ⟨t, ht, hid⟩ := mem_asideForest.1 haside
      refine .inr (List.findSome?_isSome_iff.2 ⟨t, ht, ?_⟩)
      exact Forest.locateFrom?_isSome
        ((List.mem_cons.1 hid).resolve_left (Ne.symm (h.inner t ht))) _ _
  obtain ⟨⟨parent, i⟩, heq⟩ := Option.isSome_iff_exists.1 hsome
  exact ⟨parent, i, heq⟩

/-- An operation that is created leaves the others linked. -/
theorem insertAt (h : p.Linked x) (hp : p.Tree) (parent : Option OpId) (i : Nat) (op : Operation) :
    (p.insertAt parent i op).2.Linked x := by
  cases parent with
  | none =>
      refine ⟨?_, h.inner⟩
      have hmem := h.mem
      rw [preorder_whole, List.mem_append] at hmem ⊢
      exact hmem.imp_left fun hwalk => mem_walk_insertAt_none.2 (.inr hwalk)
  | some a =>
      refine ⟨?_, fun t ht => ?_⟩
      · rw [hp.whole_insertAt]
        by_cases ha : a ∈ p.whole.preorder
        · obtain ⟨g, hg⟩ := Forest.mem_preorder_iff.1 ha
          exact (Forest.mem_preorder_update_insertAt hp.distinct hg i).2 (.inr h.mem)
        · rw [Forest.update_eq_self ha]
          exact h.mem
      · rw [detached_insertAt_some] at ht
        obtain ⟨d, hd, rfl⟩ := List.mem_map.1 ht
        exact h.inner d hd

/-- An operation that is erased leaves the others linked, those below it too. -/
theorem erase (h : p.Linked x) (hp : p.Tree) (hne : x ≠ y) : (p.erase y).Linked x where
  mem := by
    rw [(hp.preorder_whole_erase y).mem_iff, Forest.preorder_cons, List.mem_cons, List.mem_append]
    by_cases hy : y ∈ p.whole.preorder
    · obtain ⟨g, hg⟩ := Forest.mem_preorder_iff.1 hy
      rw [below_of_whole hg, Forest.mem_preorder_remove hp.distinct hg]
      by_cases hxg : x ∈ g.preorder
      · exact .inr (.inl hxg)
      · exact .inr (.inr ⟨h.mem, hne, hxg⟩)
    · rw [Forest.remove_eq_self hy]
      exact .inr (.inr h.mem)
  inner t ht := by
    rw [detached_erase, mem_insertDetached] at ht
    rcases ht with rfl | ht
    · exact Ne.symm hne
    · obtain ⟨d, hd, rfl⟩ := List.mem_map.1 ht
      exact h.inner d (List.mem_filter.1 hd).1

/-- What is put before a linked operation gets a parent that the operation is below. -/
theorem insertBefore_eq (h : p.Linked x) (hp : p.Tree) (op : Operation) :
    ∃ parent i, p.insertBefore x op = p.insertAt parent i op ∧ p.Above x parent ∧
      (x ∈ p.walk → p.Holds parent) := by
  obtain ⟨parent, i, hplace⟩ := h.locate?
  have hbelow : ∀ a, parent = some a → x ∈ p.walkIn a := fun a ha =>
    mem_walkIn_of_mem_children (ha ▸ List.mem_of_getElem? (hp.locate?_eq_some_iff.1 hplace))
  refine ⟨parent, i, by rw [Program.insertBefore, hplace], fun a ha _ => hbelow a ha, ?_⟩
  intro hx a ha
  exact hp.sound.mem_walk_of_below (hbelow a ha) hx

/-- An operation that is put before a linked one, as the body shows it. -/
theorem body_insertBefore (h : p.Linked x) (hp : p.Tree) (op : Operation) :
    (p.insertBefore x op).2.body = p.body.putBefore x [p.slots.size] := by
  obtain ⟨parent, i, hplace⟩ := h.locate?
  rw [Program.insertBefore, hplace]
  dsimp only
  by_cases hx : x ∈ p.walk
  · -- The place is one of the body.
    rw [Program.locate?] at hplace
    obtain ⟨place, hbody⟩ := Option.isSome_iff_exists.1 (Forest.locateFrom?_isSome hx none 0)
    rw [Forest.locate?, hbody, Option.some_or, Option.some.injEq] at hplace
    subst hplace
    rcases (Forest.locate?_eq_some_iff hp.distinct_body).1 hbody with
      ⟨rfl, hroot⟩ | ⟨b, g, rfl, hb, hroot⟩
    · rw [body_insertAt_none, Forest.insertAt_eq_putBefore hp.distinct_body hroot]
    · rw [body_insertAt_some, Forest.update_eq_putBefore hp.distinct_body hb hroot]
  · obtain ⟨b, rfl, hb⟩ := locate?_outside hp.sound hx hplace
    rw [body_insertAt_some, Forest.update_eq_self hb, Forest.putBefore_eq_self hx]

end Linked

/-! ### Operations before another one -/

/-- The program with operations put before another one. -/
def putAll (p : Program) (x : OpId) (ops : List Operation) : Program :=
  ops.foldl (fun q op => (q.insertBefore x op).2) p

@[simp] theorem putAll_nil (p : Program) (x : OpId) : p.putAll x [] = p := rfl

theorem putAll_cons (p : Program) (x : OpId) (op : Operation) (ops : List Operation) :
    p.putAll x (op :: ops) = (p.insertBefore x op).2.putAll x ops := rfl

/-- Operations are put before another in two parts as in one. -/
theorem putAll_append (p : Program) (x : OpId) (ops ops' : List Operation) :
    p.putAll x (ops ++ ops') = (p.putAll x ops).putAll x ops' :=
  List.foldl_append

/-- The creation of an operation before another leaves a tree. -/
theorem Tree.insertBefore (hp : p.Tree) (x : OpId) (op : Operation) :
    (p.insertBefore x op).2.Tree := by
  obtain ⟨parent, i, heq⟩ := p.insertBefore_eq x op
  rw [heq]
  exact hp.insertAt parent i op

/-- An operation stays linked when others are put before some operation. -/
theorem Linked.insertBefore (h : p.Linked y) (hp : p.Tree) (x : OpId) (op : Operation) :
    (p.insertBefore x op).2.Linked y := by
  obtain ⟨parent, i, heq⟩ := p.insertBefore_eq x op
  rw [heq]
  exact h.insertAt hp parent i op

/-- The creation of an operation before another adds one. -/
@[simp] theorem size_insertBefore (p : Program) (x : OpId) (op : Operation) :
    (p.insertBefore x op).2.slots.size = p.slots.size + 1 := by
  obtain ⟨parent, i, heq⟩ := p.insertBefore_eq x op
  rw [heq, size_insertAt]

/-- Putting operations before another leaves a tree. -/
theorem Tree.putAll (hp : p.Tree) (x : OpId) (ops : List Operation) : (p.putAll x ops).Tree := by
  induction ops generalizing p with
  | nil => exact hp
  | cons op ops ih => exact ih (hp.insertBefore x op)

/-- An operation stays linked when several others are put before some operation. -/
theorem Linked.putAll (h : p.Linked y) (hp : p.Tree) (x : OpId) (ops : List Operation) :
    (p.putAll x ops).Linked y := by
  induction ops generalizing p with
  | nil => exact h
  | cons op ops ih => exact ih (h.insertBefore hp x op) (hp.insertBefore x op)

/-- As many operations are created as are put before another. -/
@[simp] theorem size_putAll (p : Program) (x : OpId) (ops : List Operation) :
    (p.putAll x ops).slots.size = p.slots.size + ops.length := by
  induction ops generalizing p with
  | nil => rfl
  | cons op ops ih => rw [putAll_cons, ih, size_insertBefore, List.length_cons, Nat.add_right_comm,
      Nat.add_assoc]

/-- Operations put before another are leaves before it, with the next numbers in their order. -/
theorem Linked.body_putAll (h : p.Linked x) (hp : p.Tree) (ops : List Operation) :
    (p.putAll x ops).body = p.body.putBefore x (List.range' p.slots.size ops.length) := by
  induction ops generalizing p with
  | nil => exact (Forest.putBefore_nil x p.body).symm
  | cons op ops ih =>
      have hx : x ∉ [p.slots.size] := by
        rw [List.mem_singleton]
        exact Nat.ne_of_lt (h.lt_size hp)
      rw [putAll_cons, ih (h.insertBefore hp x op) (hp.insertBefore x op), h.body_insertBefore hp,
        Forest.putBefore_putBefore hx, size_insertBefore, List.length_cons, List.range'_succ,
        List.singleton_append]

/-- The operations are put before the other one under a rule that lets them be created above it. -/
theorem Linked.putAll_edits (h : p.Linked x) (hp : p.Tree)
    (creates : ∀ op ∈ ops, ∀ r parent, p.Edits rule r → r.Above x parent →
      rule.creates r parent op)
    (fresh : ∀ op ∈ ops, op.result = none) : p.Edits rule (p.putAll x ops) := by
  induction ops generalizing p with
  | nil => exact .refl
  | cons op ops ih =>
      obtain ⟨parent, i, heq, habove, -⟩ := h.insertBefore_eq hp op
      have hfirst : p.Edits rule (p.insertBefore x op).2 := by
        rw [heq]
        exact .single (.create parent i op (creates op List.mem_cons_self p parent .refl habove)
          (fresh_of_none (fresh op List.mem_cons_self)))
      refine hfirst.trans (ih (h.insertBefore hp x op) (hp.insertBefore x op)
        (fun op' hop' r parent hr => ?_) fun op' hop' => fresh op' (List.mem_cons_of_mem _ hop'))
      exact creates op' (List.mem_cons_of_mem _ hop') r parent (hfirst.trans hr)

/-- Operations that may be created anywhere are put before another one by edits. -/
theorem putAll_edits (creates : ∀ op ∈ ops, ∀ r parent, rule.creates r parent op)
    (fresh : ∀ op ∈ ops, op.result = none) : p.Edits rule (p.putAll x ops) := by
  induction ops generalizing p with
  | nil => exact .refl
  | cons op ops ih =>
      obtain ⟨parent, i, heq⟩ := p.insertBefore_eq x op
      have hfirst : p.Edits rule (p.insertBefore x op).2 := by
        rw [heq]
        exact .single (.create parent i op (creates op List.mem_cons_self p parent)
          (fresh_of_none (fresh op List.mem_cons_self)))
      exact hfirst.trans (ih (fun op' hop' => creates op' (List.mem_cons_of_mem _ hop'))
        fun op' hop' => fresh op' (List.mem_cons_of_mem _ hop'))

/-- Whether the operations that are put before another one are each as a relation tells, by the
program in which it is put. -/
def PutsEach (C : Program → Operation → Prop) (x : OpId) : Program → List Operation → Prop
  | _, [] => True
  | p, op :: ops => C p op ∧ PutsEach C x (p.insertBefore x op).2 ops

section PutsEach

variable {C : Program → Operation → Prop} {device : OpId}

/-- A condition on each of two parts of what is put is one on all of it. -/
theorem putsEach_append {ops' : List Operation} : PutsEach C x p (ops ++ ops') ↔
    PutsEach C x p ops ∧ PutsEach C x (p.putAll x ops) ops' := by
  induction ops generalizing p with
  | nil => exact (true_and _).symm ▸ Iff.rfl
  | cons op ops ih => rw [List.cons_append, PutsEach, ih, PutsEach, putAll_cons, and_assoc]

/-- Values that are new where they are put are new from the start, and no two of them are the
same. -/
theorem PutsEach.fresh (h : PutsEach C x p ops) (hp : p.Sound) (hdevice : device ∈ p.body.roots)
    (hx : x ∈ p.walkIn device)
    (new : ∀ r op, C r op → ∀ v, op.result = some v → v ∉ r.definedValues) :
    (∀ v ∈ ops.filterMap (·.result), v ∉ p.definedValues) ∧
      (ops.filterMap (·.result)).Nodup := by
  induction ops generalizing p with
  | nil => exact ⟨fun _ hv => (nomatch hv), List.nodup_nil⟩
  | cons op ops ih =>
      obtain ⟨parent, hnew, hholds, hwalk⟩ := insertBefore_created hp hdevice hx op
      have hvalue := fun v => hnew.mem_definedValues_iff (v := v) hp hholds
      obtain ⟨hrest, hnodup⟩ := ih h.2 hnew.sound ((hnew.roots device).2 (.inl hdevice))
        ((hwalk x).2 (.inl hx))
      rcases hop : op.result with _ | v
      · rw [List.filterMap_cons_none hop]
        exact ⟨fun w hw hmem => hrest w hw ((hvalue w).2 (.inl hmem)), hnodup⟩
      · rw [List.filterMap_cons_some hop, List.forall_mem_cons, List.nodup_cons]
        exact ⟨⟨new p op h.1 v hop, fun w hw hmem => hrest w hw ((hvalue w).2 (.inl hmem))⟩,
          fun hmem => hrest v hmem ((hvalue v).2 (.inr hop)), hnodup⟩

end PutsEach

/-! ### Operations in the place of another one -/

/-- The program with operations in the place of another one. -/
def replace (p : Program) (x : OpId) (ops : List Operation) : Program :=
  (p.putAll x ops).erase x

/-- Replacing an operation leaves a tree. -/
theorem Linked.tree_replace (h : p.Linked x) (hp : p.Tree) (ops : List Operation) :
    (p.replace x ops).Tree :=
  (hp.putAll x ops).erase ((h.putAll hp x ops).lt_size (hp.putAll x ops))

/-- Other operations stay linked when one is replaced. -/
theorem Linked.replace (h : p.Linked y) (hp : p.Tree) (hne : y ≠ x) (ops : List Operation) :
    (p.replace x ops).Linked y :=
  (h.putAll hp x ops).erase (hp.putAll x ops) hne

/-- The body has the operations, if they are in it at all, where the other one was. -/
theorem Linked.body_replace (h : p.Linked x) (hp : p.Tree) (ops : List Operation) :
    (p.replace x ops).body = p.body.expand fun a =>
      if a = x then some (List.range' p.slots.size ops.length) else none := by
  have hx : x ∉ List.range' p.slots.size ops.length := by
    rw [List.mem_range'_1, not_and_or]
    exact .inl (Nat.not_le_of_lt (h.lt_size hp))
  rw [Program.replace, body_erase, h.body_putAll hp, Forest.remove_putBefore hp.distinct_body hx]

/-! ### Operations that stay as they are -/

/-- Edits that create operations above others only, and change none, leave an operation as it is
that is in the body, with none below it. -/
theorem Edits.leaf (hp : p.Sound) (h : p.Edits rule q)
    (creates : ∀ r parent op, rule.creates r parent op → ∃ x, r.Above x parent)
    (changes : ∀ r id op, ¬ rule.changes r id op) (hmem : id ∈ q.walk) (hlt : id < p.slots.size)
    (hleaf : p.walkIn id = []) : q.op id = p.op id ∧ q.walkIn id = [] := by
  induction h with
  | refl => exact ⟨rfl, hleaf⟩
  | @tail r q hr hedit ih =>
      have hrsound := Edits.sound hr hp
      have hltr : id < r.slots.size := Nat.lt_of_lt_of_le hlt (Edits.size_le hr hp)
      have hmemr := (hedit.evolves hrsound).walk id hmem hltr
      obtain ⟨hop, hnone⟩ := ih hmemr
      cases hedit with
      | create parent i new hcreates =>
          obtain ⟨x, habove⟩ := creates r parent new hcreates
          have hother : parent ≠ some id := by
            intro hparent
            have hx := habove id hparent hmemr
            rw [hnone] at hx
            exact List.not_mem_nil hx
          have hslot : (r.insertAt parent i new).2.slots[id]? = r.slots[id]? := by
            cases parent with
            | none => exact slot_insertAt_none hltr i new
            | some b =>
                exact slot_insertAt_some (fun heq => hother (congrArg some heq.symm)) hltr i new
          refine ⟨(op_congr hslot).trans hop, List.eq_nil_iff_forall_not_mem.2 fun y hy => ?_⟩
          rcases ((created_insertAt hrsound parent i new).walkIn id hmemr y).1 hy with
            hy | ⟨-, b, hb, rfl | hb'⟩
          · rw [hnone] at hy
            exact List.not_mem_nil hy
          · exact hother hb
          · rw [hnone] at hb'
            exact List.not_mem_nil hb'
      | change j f _ hchanges => exact absurd hchanges (changes r j _)
      | erase j hj =>
          refine ⟨(op_erase r j id).trans hop, List.eq_nil_iff_forall_not_mem.2 fun y hy => ?_⟩
          have hy := (((cut_erase hrsound hj).walkIn id hmem y).1 hy).1
          rw [hnone] at hy
          exact List.not_mem_nil hy

/-- The operations that are put before another one are those, wherever they are in the body
later. -/
theorem op_of_putAll (hp : p.Tree) (hx : p.Linked x)
    (creates : ∀ r parent op, rule.creates r parent op → ∃ x, r.Above x parent)
    (changes : ∀ r id op, ¬ rule.changes r id op) {i : Nat} (hi : ops[i]? = some op)
    (hputs : ∀ op ∈ ops, ∀ r parent, r.Above x parent → rule.creates r parent op)
    (fresh : ∀ op ∈ ops, op.result = none)
    (h : (p.putAll x ops).Edits rule q) (hmem : p.slots.size + i ∈ q.walk) :
    q.op (p.slots.size + i) = op := by
  induction ops generalizing p i with
  | nil => cases hi
  | cons first ops ih =>
      have htree := hp.insertBefore x first
      have hlinked := hx.insertBefore hp x first
      have hrest : (p.insertBefore x first).2.Edits rule q :=
        (hlinked.putAll_edits htree
          (fun op' hop' r parent _ => hputs op' (List.mem_cons_of_mem _ hop') r parent)
          fun op' hop' => fresh op' (List.mem_cons_of_mem _ hop')).trans h
      cases i with
      | zero =>
          obtain rfl : first = op := by simpa using hi
          rw [Nat.add_zero] at hmem ⊢
          obtain ⟨parent, j, heq, -, -⟩ := hx.insertBefore_eq hp first
          rw [heq] at hrest htree
          have hnew := created_insertAt hp.sound parent j first
          have hlt : p.slots.size < (p.insertAt parent j first).2.slots.size := by
            rw [hnew.size]
            exact Nat.lt_succ_self _
          have hthere := (hrest.evolves htree.sound).walk _ hmem hlt
          have hholds : p.Holds parent := (((hnew.walk _).1 hthere).resolve_left
            hp.sound.toWellFormed.notMem_walk).2
          rw [(hrest.leaf htree.sound creates changes hmem hlt (hnew.leaf hholds)).1]
          exact hnew.new hholds
      | succ i =>
          have hsize : (p.insertBefore x first).2.slots.size + i = p.slots.size + (i + 1) := by
            rw [size_insertBefore]
            omega
          rw [← hsize] at hmem ⊢
          exact ih htree hlinked (by simpa using hi)
            (fun op' hop' => hputs op' (List.mem_cons_of_mem _ hop'))
            (fun op' hop' => fresh op' (List.mem_cons_of_mem _ hop')) h hmem

end TileFlow.Program
