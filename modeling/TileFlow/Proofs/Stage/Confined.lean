import TileFlow.Proofs.Program.Links
import TileFlow.Proofs.Program.Replace
import TileFlow.Proofs.Stage.Action

/-!
# Edits and actions inside of an operation

What is below an operation, together with all that is created later, is enclosed by it: the links
lead from the inside to the outside at this operation only. Edits of the inside keep it enclosed,
and nobody outside of it notices them. This holds for operations that are erased, too, which stay
inside with all below them.

An action is confined to an enclosure when nothing outside of it changes, whether the action
succeeds or gives up. Each way of putting actions together keeps them confined, and so do the edits
of what is inside. An operation is put before another one by the place of that one: it has to be
linked then, for otherwise the new operation would go to the end of the body.

## Main definitions

* `Enclosure`: an operation and what is inside of it.
* `Enclosure.Encloses`: the programs in which the links respect an enclosure.
* `Enclosure.Spares`: a program that differs from another one inside of an enclosure only.
* `Action.ConfinedBut`, `Action.Confined`: actions that change nothing outside of an enclosure, as
  long as some operations are linked.

## Main results

* `Enclosure.spares_insertAt`, `Enclosure.spares_erase`, `Enclosure.spares_modify`: the edits of the
  inside.
* `Enclosure.encloses_below`: an operation encloses what is below it.
* `Action.ConfinedBut.bind`, `Action.ConfinedBut.get_bind`: actions one after the other.
* `Action.ConfinedBut.forM`, `Action.ConfinedBut.forM_erasing`: loops.
* `Action.confined_insertBefore`, `Action.confined_append`, `Action.confined_erase`: the edits.
-/

/-! ## Enclosures -/

namespace TileFlow

/-- An operation and what is inside of it. -/
structure Enclosure where
  device : OpId
  inside : OpId → Prop

namespace Enclosure

variable {c : Enclosure} {p q r : Program} {a id x : OpId} {op : Operation} {gone : OpId → Prop}

/-- Whether an operation encloses others: what is not created yet is inside, and of an operation and
its child either both are inside, or none, unless the parent is the enclosing one. -/
structure Encloses (c : Enclosure) (p : Program) : Prop where
  tree : p.Tree
  outer : ¬ c.inside c.device
  new : ∀ id, p.slots.size ≤ id → c.inside id
  roots : ∀ id ∈ p.body.roots, ¬ c.inside id
  links : ∀ a id, id ∈ p.children (some a) → (c.inside id ↔ a = c.device ∨ c.inside a)

/-- Whether a program is another one apart from what is inside of an enclosure. Some operations may
have been erased, and the others are still linked if they were. -/
structure Spares (c : Enclosure) (gone : OpId → Prop) (p q : Program) : Prop where
  encloses : c.Encloses q
  size : p.slots.size ≤ q.slots.size
  roots : q.body.roots = p.body.roots
  attributes : q.attributes = p.attributes
  device : (p.op c.device).SameHeader (q.op c.device)
  slot : ∀ id, ¬ c.inside id → id ≠ c.device → q.slots[id]? = p.slots[id]?
  parent : ∀ id, ¬ c.inside id → q.parent? id = p.parent? id
  children : ∀ id, ¬ c.inside id → id ≠ c.device → q.children (some id) = p.children (some id)
  linked : ∀ id, p.Linked id → ¬ gone id → q.Linked id

/-- Nothing changes outside when nothing happens. -/
theorem Spares.refl (hp : c.Encloses p) : c.Spares gone p p where
  encloses := hp
  size := Nat.le_refl _
  roots := rfl
  attributes := rfl
  device := .refl _
  slot _ _ _ := rfl
  parent _ _ := rfl
  children _ _ _ := rfl
  linked _ h _ := h

/-- Edits spare the outside for more operations that may be gone. -/
theorem Spares.mono {gone' : OpId → Prop} (h : c.Spares gone p q)
    (hgone : ∀ id, gone id → gone' id) : c.Spares gone' p q :=
  { h with linked := fun id hid hnot => h.linked id hid fun hg => hnot (hgone id hg) }

/-- Edits that spare the outside may follow each other. -/
theorem Spares.trans (h : c.Spares gone p q) (h' : c.Spares gone q r) : c.Spares gone p r where
  encloses := h'.encloses
  size := Nat.le_trans h.size h'.size
  roots := h'.roots.trans h.roots
  attributes := h'.attributes.trans h.attributes
  device := h.device.trans h'.device
  slot id hid hne := (h'.slot id hid hne).trans (h.slot id hid hne)
  parent id hid := (h'.parent id hid).trans (h.parent id hid)
  children id hid hne := (h'.children id hid hne).trans (h.children id hid hne)
  linked id hid hnot := h'.linked id (h.linked id hid hnot) hnot

/-- An operation outside was created. -/
theorem Encloses.lt_size (hp : c.Encloses p) (hid : ¬ c.inside id) : id < p.slots.size :=
  Nat.lt_of_not_le fun hle => hid (hp.new id hle)

/-- What is below the enclosing operation, or below one that is inside, is inside. -/
theorem Encloses.inside_of_walkIn (hp : c.Encloses p) (ha : a = c.device ∨ c.inside a)
    (hid : id ∈ p.walkIn a) : c.inside id := by
  rw [Program.walkIn, Program.below_eq] at hid
  rcases hbelow : p.whole.below? a with _ | g
  · rw [hbelow] at hid
    cases hid
  · rw [hbelow, Option.getD_some] at hid
    refine hp.tree.distinct.forall_below (fun b h hb hin x hx => ?_) hbelow id hid
    have hlink : x ∈ p.children (some b) := by
      rw [Program.children_some, hb]
      exact hx
    exact (hp.links b x hlink).2 (hin.elim (fun heq => heq ▸ ha) .inr)

/-- What is below an operation that is neither inside nor the enclosing one is outside, too, if the
enclosing one is at the top. -/
theorem Encloses.outside_of_walkIn (hp : c.Encloses p) (hroot : c.device ∈ p.body.roots)
    (ha : ¬ c.inside a) (hne : a ≠ c.device) (hid : id ∈ p.walkIn a) :
    ¬ c.inside id ∧ id ≠ c.device := by
  rw [Program.walkIn, Program.below_eq] at hid
  rcases hbelow : p.whole.below? a with _ | g
  · rw [hbelow] at hid
    cases hid
  · rw [hbelow, Option.getD_some] at hid
    refine hp.tree.distinct.forall_below (P := fun x => ¬ c.inside x ∧ x ≠ c.device)
      (fun b h hb hout x hx => ?_) hbelow id hid
    have hlink : x ∈ p.children (some b) := by
      rw [Program.children_some, hb]
      exact hx
    have hb : ¬ c.inside b ∧ b ≠ c.device := hout.elim (fun heq => heq ▸ ⟨ha, hne⟩) fun h => h
    refine ⟨fun hin => ((hp.links b x hlink).1 hin).elim hb.2 hb.1, ?_⟩
    rintro rfl
    have htop : c.device ∈ p.children none := hroot
    exact Option.some_ne_none b ((hp.tree.parent?_eq hlink).symm.trans (hp.tree.parent?_eq htop))

/-- An operation of the body encloses what is below it, and what is created later. -/
theorem encloses_below {device : OpId} (hp : p.Tree) (hdevice : device ∈ p.walk) :
    Encloses ⟨device, fun id => id ∈ p.walkIn device ∨ p.slots.size ≤ id⟩ p := by
  obtain ⟨g, hg⟩ := Forest.mem_preorder_iff.1 (Program.mem_whole_of_mem_walk hdevice)
  have hwalkIn : p.walkIn device = g.preorder := by
    rw [Program.walkIn, Program.below_of_whole hg]
  refine ⟨hp, ?_, fun id hid => .inr hid, fun id hid => ?_, fun a id hid => ?_⟩
  · rintro (hin | hle)
    · exact hp.notMem_walkIn_self device hin
    · exact absurd (hp.lt device (Program.mem_whole_of_mem_walk hdevice)) (Nat.not_lt.2 hle)
  · have hwalk := Program.mem_walk_of_mem_roots hid
    rintro (hin | hle)
    · obtain ⟨h, hh, hbelow⟩ := Program.exists_below hdevice
      rw [Program.walkIn, hbelow] at hin
      exact hp.distinct_body.notMem_roots_of_below hh hin hid
    · exact absurd (hp.lt id (Program.mem_whole_of_mem_walk hwalk)) (Nat.not_lt.2 hle)
  · have hlist := hid
    rw [Program.children_some] at hlist
    rcases ha : p.whole.below? a with _ | h
    · rw [ha] at hlist
      cases hlist
    · rw [ha] at hlist
      have hlist : id ∈ h.roots := hlist
      have hlt : ∀ x ∈ p.whole.preorder, ¬ p.slots.size ≤ x := fun x hx =>
        Nat.not_le.2 (hp.lt x hx)
      have hidlt := hlt id ((hp.distinct.below ha).2.2 id (Forest.mem_preorder_of_mem_roots hlist))
      have halt := hlt a (Forest.mem_preorder_of_below? ha)
      dsimp only
      rw [hwalkIn]
      constructor
      · rintro (hin | hle)
        · exact (hp.distinct.parent_mem_below hg hin ha hlist).imp_right .inl
        · exact absurd hle hidlt
      · rintro (rfl | hin | hle)
        · exact .inl (hwalkIn ▸ Program.mem_walkIn_of_mem_children hid)
        · exact .inl (hwalkIn ▸ hp.walkIn_trans (hwalkIn ▸ hin)
            (Program.mem_walkIn_of_mem_children hid))
        · exact absurd hle halt

/-! ### Edits of the inside -/

/-- A new child of the enclosing operation, or of one inside, is inside. -/
theorem spares_insertAt (hp : c.Encloses p) (ha : a = c.device ∨ c.inside a) (i : Nat)
    (op : Operation) : c.Spares gone p (p.insertAt (some a) i op).2 := by
  have hapart : ∀ id, ¬ c.inside id → id ≠ c.device → id ≠ a := by
    rintro id hid hne rfl
    exact ha.elim hne hid
  have hold : ∀ id, ¬ c.inside id → id ≠ p.slots.size := by
    rintro id hid rfl
    exact hid (hp.new _ (Nat.le_refl _))
  refine ⟨⟨hp.tree.insertAt _ i op, hp.outer, fun id hid => hp.new id ?_, ?_, fun b id hid => ?_⟩,
    ?_, ?_, rfl, ?_, fun id hid hne => ?_, fun id hid => ?_, fun id hid hne => ?_,
    fun id hid _ => hid.insertAt hp.tree _ i op⟩
  · rw [Program.size_insertAt] at hid
    exact Nat.le_of_succ_le hid
  · rw [Program.body_insertAt_some, Forest.roots_update]
    exact hp.roots
  · by_cases hba : b = a
    · subst hba
      rcases hp.tree.mem_children_insertAt.1 hid with hid | ⟨-, rfl⟩
      · exact hp.links b id hid
      · exact iff_of_true (hp.new _ (Nat.le_refl _)) ha
    · by_cases hnew : b = p.slots.size
      · rw [hnew, hp.tree.children_insertAt_new] at hid
        cases hid
      · rw [hp.tree.children_insertAt (by simpa using hba) (by simpa using hnew)] at hid
        exact hp.links b id hid
  · rw [Program.size_insertAt]
    exact Nat.le_succ _
  · rw [Program.body_insertAt_some, Forest.roots_update]
  · exact (Program.created_insertAt hp.tree.sound _ i op).old _ (hp.lt_size hp.outer)
  · exact Program.slot_insertAt_some (hapart id hid hne) (hp.lt_size hid) i op
  · exact hp.tree.parent?_insertAt (hold id hid)
  · exact hp.tree.children_insertAt (by simpa using hapart id hid hne) (by simpa using hold id hid)

/-- The parent of an operation inside, from which a new one before it gets its place. -/
theorem Encloses.insertBefore_eq (hp : c.Encloses p) (hx : c.inside x) (hlinked : p.Linked x)
    (op : Operation) : ∃ a i, p.insertBefore x op = p.insertAt (some a) i op ∧
      (a = c.device ∨ c.inside a) := by
  obtain ⟨parent, i, hplace⟩ := hlinked.locate?
  have hlist := List.mem_of_getElem? (hp.tree.locate?_eq_some_iff.1 hplace)
  cases parent with
  | none => exact absurd hx (hp.roots x hlist)
  | some a => exact ⟨a, i, by rw [Program.insertBefore, hplace], (hp.links a x hlist).1 hx⟩

/-- The erasure of an operation inside spares the outside. -/
theorem spares_erase (hp : c.Encloses p) (hx : c.inside x) (hlt : x < p.slots.size)
    (hgone : gone x) : c.Spares gone p (p.erase x) := by
  refine ⟨⟨hp.tree.erase hlt, hp.outer, fun id hid => hp.new id ?_, fun id hid => ?_,
    fun b id hid => ?_⟩, ?_, ?_, rfl, ?_, fun id hid hne => ?_, fun id hid => ?_,
    fun id hid hne => ?_, fun id hid hnot => ?_⟩
  · rwa [Program.size_erase] at hid
  · rw [Program.body_erase, Forest.roots_remove hp.tree.distinct_body, List.mem_filter] at hid
    exact hp.roots id hid.1
  · rw [hp.tree.children_erase hlt, List.mem_filter] at hid
    exact hp.links b id hid.1
  · exact Nat.le_of_eq (Program.size_erase p x).symm
  · rw [Program.body_erase, Forest.roots_remove hp.tree.distinct_body, List.filter_eq_self]
    exact fun id hid => decide_eq_true fun heq => hp.roots id hid (heq ▸ hx)
  · rw [Program.op_erase]
    exact .refl _
  · rw [Program.slot_erase, if_neg]
    rintro (rfl | hin)
    · exact hid hx
    · exact hid (hp.inside_of_walkIn (.inr hx) hin)
  · exact hp.tree.parent?_erase hlt fun heq => hid (heq ▸ hx)
  · rw [hp.tree.children_erase hlt, List.filter_eq_self]
    exact fun y hy => decide_eq_true fun heq =>
      ((hp.links id y hy).1 (heq ▸ hx)).elim hne hid
  · exact hid.erase hp.tree fun heq => hnot (heq ▸ hgone)

/-- A change of an operation inside spares the outside. -/
theorem spares_modify (hp : c.Encloses p) (hx : c.inside x) (f : Operation → Operation) :
    c.Spares gone p (p.modify x f) := by
  have hapart : ∀ id, ¬ c.inside id → id ≠ x := fun id hid heq => hid (heq ▸ hx)
  have hsize := Program.size_modify p x f
  exact {
    encloses := ⟨hp.tree.modify x f, hp.outer, fun id hid => hp.new id (hsize ▸ hid), hp.roots,
      hp.links⟩
    size := Nat.le_of_eq hsize.symm
    roots := rfl
    attributes := rfl
    device := by
      rw [Program.op_modify_of_ne (hapart _ hp.outer)]
      exact .refl _
    slot := fun id hid _ => Program.slot_modify_of_ne (hapart id hid) f
    parent := fun _ _ => rfl
    children := fun _ _ _ => rfl
    linked := fun _ hid _ => ⟨hid.mem, hid.inner⟩ }

end Enclosure

end TileFlow

/-! ## Confined actions -/

namespace TileFlow

namespace Program.Tree

variable {p : Program} {a id : OpId}

/-- What is below an operation is linked. -/
theorem linked_of_walkIn (hp : p.Tree) (h : id ∈ p.walkIn a) : p.Linked id := by
  rw [walkIn, below_eq] at h
  rcases ha : p.whole.below? a with _ | g
  · rw [ha] at h
    cases h
  · rw [ha, Option.getD_some] at h
    refine ⟨(hp.distinct.below ha).2.2 id h, ?_⟩
    rintro t ht rfl
    refine hp.distinct.notMem_roots_of_below ha h (Forest.mem_roots.2 ?_)
    have htree : ∀ l : List Detached, t ∈ l → (t.root, t.children) ∈ (asideForest l).trees := by
      intro l hl
      induction l with
      | nil => cases hl
      | cons s rest ih =>
          rw [asideForest, Forest.trees_cons]
          exact (List.mem_cons.1 hl).elim (fun heq => heq ▸ List.mem_cons_self)
            fun hrest => List.mem_cons_of_mem _ (ih hrest)
    exact ⟨t.children, by
      rw [whole, Forest.trees_append, List.mem_append]
      exact .inr (htree _ ht)⟩

/-- No operation is found twice below another. -/
theorem nodup_findIn (hp : p.Tree) (a : OpId) (name : String) : (p.findIn a name).Nodup := by
  refine List.Pairwise.filter _ ?_
  rw [walkIn, below_eq]
  rcases ha : p.whole.below? a with _ | g
  · exact List.nodup_nil
  · exact (hp.distinct.below ha).1

end Program.Tree

namespace Action

variable {α β : Type} {c : Enclosure} {p : Program} {A G : OpId → Prop} {Q R : α → Prop}
  {S : β → Prop} {a x device : OpId} {l : List β}

/-- No operation. -/
def nothing : OpId → Prop := fun _ => False

/-- Any result. -/
def anything : α → Prop := fun _ => True

/-- Whether an action is confined to an enclosure wherever some operations are linked: it changes
nothing outside, cuts out no operation but some, and gives a result with a property when it
succeeds. -/
def ConfinedBut (c : Enclosure) (A G : OpId → Prop) (x : Action α) (Q : α → Prop) : Prop :=
  ∀ p : Program, c.Encloses p → (∀ id, A id → p.Linked id) →
    c.Spares G p (runOn x p).2 ∧ ∀ a q, runOn x p = (.ok a, q) → Q a

/-- Whether an action is confined and leaves every operation linked. -/
abbrev Confined (c : Enclosure) (A : OpId → Prop) (x : Action α) (Q : α → Prop) : Prop :=
  ConfinedBut c A nothing x Q

/-- An action stays confined under weaker bounds. -/
theorem ConfinedBut.mono {A' G' : OpId → Prop} {x : Action α} (h : ConfinedBut c A G x Q)
    (hA : ∀ id, A id → A' id) (hG : ∀ id, G id → G' id) (hQ : ∀ a, Q a → R a) :
    ConfinedBut c A' G' x R := fun p hp hlinked =>
  have hx := h p hp fun id hid => hlinked id (hA id hid)
  ⟨hx.1.mono hG, fun a q hrun => hQ a (hx.2 a q hrun)⟩

/-! ### Actions that look -/

/-- An action that edits nothing is confined. -/
theorem confined_of_eq {x : Action α} (h : ∀ p, (runOn x p).2 = p) :
    ConfinedBut c A G x anything :=
  fun p hp _ => ⟨by rw [h]; exact .refl hp, fun _ _ _ => trivial⟩

/-- An action that only gives a result is confined. -/
theorem confined_pure {a : α} (ha : Q a) : ConfinedBut c A G (pure a) Q := fun p hp _ =>
  ⟨.refl hp, fun b q hrun => by
    obtain ⟨rfl, -⟩ := pure_ok.1 hrun
    exact ha⟩

/-- Nothing runs behind an action that gives up. -/
theorem confined_throw_bind (e : StageError) (f : α → Action β) :
    ConfinedBut c A G ((throw e : Action α) >>= f) S := fun _ hp _ =>
  ⟨.refl hp, fun _ _ hrun => nomatch hrun⟩

/-- An optional value is confined, and gives what is there. -/
theorem confined_orFail (x : Option α) (e : StageError) :
    ConfinedBut c A G (orFail x e) fun a => x = some a := fun p hp _ => by
  cases x with
  | none => exact ⟨.refl hp, fun _ _ hrun => nomatch hrun⟩
  | some b =>
      refine ⟨.refl hp, fun a q hrun => ?_⟩
      rw [(pure_ok.1 hrun).1]

/-- A condition is confined. -/
theorem confined_ensure (condition : Bool) (e : StageError) :
    ConfinedBut c A G (ensure condition e) anything :=
  confined_of_eq fun _ => by cases condition <;> rfl

/-! ### Actions one after the other -/

/-- A second action runs with the operations that a first one leaves linked. -/
theorem ConfinedBut.bind {x : Action α} {f : α → Action β} (hx : Confined c A x Q)
    (hf : ∀ a, Q a → ConfinedBut c A G (f a) S) : ConfinedBut c A G (x >>= f) S :=
  fun p hp hlinked => by
    obtain ⟨hspares, hresult⟩ := hx p hp hlinked
    rw [runOn_bind]
    rcases hrun : runOn x p with ⟨e | a, q⟩
    · rw [hrun] at hspares
      exact ⟨hspares.mono fun _ hid => hid.elim, fun _ _ h => nomatch h⟩
    · rw [hrun] at hspares
      obtain ⟨hthen, hlast⟩ := hf a (hresult a q hrun) q hspares.encloses fun id hid =>
        hspares.linked id (hlinked id hid) fun h => h
      exact ⟨(hspares.mono fun _ hid => hid.elim).trans hthen, hlast⟩

/-- After an action that cuts operations out, a second one runs without operations to rely on. -/
theorem ConfinedBut.bind_after {x : Action α} {f : α → Action β} (hx : ConfinedBut c A G x Q)
    (hf : ∀ a, Q a → ConfinedBut c nothing G (f a) S) : ConfinedBut c A G (x >>= f) S :=
  fun p hp hlinked => by
    obtain ⟨hspares, hresult⟩ := hx p hp hlinked
    rw [runOn_bind]
    rcases hrun : runOn x p with ⟨e | a, q⟩
    · rw [hrun] at hspares
      exact ⟨hspares, fun _ _ h => nomatch h⟩
    · rw [hrun] at hspares
      obtain ⟨hthen, hlast⟩ := hf a (hresult a q hrun) q hspares.encloses fun _ hid => hid.elim
      exact ⟨hspares.trans hthen, hlast⟩

/-- An action that starts by looking at the program may rely on all that is linked there. -/
theorem ConfinedBut.get_bind {f : Program → Action β}
    (hf : ∀ p : Program, c.Encloses p → (∀ id, A id → p.Linked id) →
      ConfinedBut c p.Linked G (f p) S) : ConfinedBut c A G (get >>= f) S := fun p hp hlinked =>
  have h := hf p hp hlinked p hp fun _ hid => hid
  ⟨by rw [runOn_bind]; exact h.1, fun a q hrun => h.2 a q (get_bind_ok.1 hrun)⟩

/-! ### Loops -/

/-- A fold is confined when its rounds are. -/
theorem ConfinedBut.foldlM {f : α → β → Action α} {a : α} (start : Q a)
    (step : ∀ b ∈ l, ∀ a, Q a → Confined c A (f a b) Q) : Confined c A (l.foldlM f a) Q := by
  induction l generalizing a with
  | nil => exact confined_pure start
  | cons b l ih =>
      rw [List.foldlM_cons]
      exact (step b List.mem_cons_self a start).bind fun a' ha' =>
        ih ha' fun d hd => step d (.tail _ hd)

/-- A loop is confined when its rounds are. -/
theorem ConfinedBut.forM {f : β → Action Unit} (hf : ∀ b ∈ l, Confined c A (f b) anything) :
    Confined c A (l.forM f) anything := by
  induction l with
  | nil => exact confined_pure trivial
  | cons b l ih =>
      show Confined c A (f b >>= fun _ => l.forM f) anything
      exact (hf b List.mem_cons_self).bind fun _ _ => ih fun d hd => hf d (.tail _ hd)

/-- A traversal is confined when its rounds are. -/
theorem ConfinedBut.mapM {f : β → Action α} (hf : ∀ b ∈ l, Confined c A (f b) anything) :
    Confined c A (l.mapM f) anything := by
  induction l with
  | nil => exact confined_pure trivial
  | cons b l ih =>
      rw [List.mapM_cons]
      exact (hf b List.mem_cons_self).bind fun _ _ =>
        (ih fun d hd => hf d (.tail _ hd)).bind fun _ _ => confined_pure trivial

/-- A loop over different operations that are linked, each of which is cut out by its own round. -/
theorem ConfinedBut.foldlM_erasing {f : α → OpId → Action α} {l : List OpId} (hl : l.Nodup)
    (hA : ∀ b ∈ l, A b) (hf : ∀ b ∈ l, ∀ a, ConfinedBut c (· = b) (· = b) (f a b) anything)
    (a : α) : ConfinedBut c A (· ∈ l) (l.foldlM f a) anything := by
  induction l generalizing a A with
  | nil => exact confined_pure trivial
  | cons b l ih =>
      intro p hp hlinked
      obtain ⟨hfresh, hl⟩ := List.nodup_cons.1 hl
      obtain ⟨hfirst, -⟩ := hf b List.mem_cons_self a p hp
        fun id hid => hlinked id (hid ▸ hA b List.mem_cons_self)
      refine ⟨?_, fun _ _ _ => trivial⟩
      rw [List.foldlM_cons, runOn_bind]
      rcases hrun : runOn (f a b) p with ⟨e | a', q⟩
      · rw [hrun] at hfirst
        exact hfirst.mono fun _ hid => hid ▸ List.mem_cons_self
      · rw [hrun] at hfirst
        have hrest := ih (A := (· ∈ l)) hl (fun _ hd => hd)
          (fun d hd => hf d (List.mem_cons_of_mem _ hd)) a' q hfirst.encloses fun d hd =>
            hfirst.linked d (hlinked d (hA d (List.mem_cons_of_mem _ hd))) fun heq =>
              hfresh (heq ▸ hd)
        exact (hfirst.mono fun _ hid => hid ▸ List.mem_cons_self).trans
          (hrest.1.mono fun _ hid => List.mem_cons_of_mem _ hid)

/-- A loop whose rounds each erase their own operation is confined but for these operations. -/
theorem ConfinedBut.forM_erasing {f : OpId → Action Unit} {l : List OpId} (hl : l.Nodup)
    (hA : ∀ b ∈ l, A b) (hf : ∀ b ∈ l, ConfinedBut c (· = b) (· = b) (f b) anything) :
    ConfinedBut c A (· ∈ l) (l.forM f) anything := by
  rw [forM_eq_foldlM]
  exact foldlM_erasing hl hA (fun b hb _ => hf b hb) ()

/-! ### Edits -/

/-- A creation before an operation inside is confined, and makes an operation inside. -/
theorem confined_insertBefore (hA : A x) (hx : c.inside x) (op : Operation) :
    Confined c A (insertBefore x op) c.inside := fun p hp hlinked => by
  obtain ⟨a, i, heq, ha⟩ := hp.insertBefore_eq hx (hlinked x hA) op
  rw [runOn_insertBefore, heq]
  refine ⟨Enclosure.spares_insertAt hp ha i op, fun id q hrun => ?_⟩
  rw [Prod.mk.injEq, Except.ok.injEq, Program.fst_insertAt] at hrun
  exact hp.new id (Nat.le_of_eq hrun.1)

/-- A creation below the device or an operation inside is confined, and makes an operation inside.
-/
theorem confined_append (ha : a = c.device ∨ c.inside a) (op : Operation) :
    Confined c A (append a op) c.inside := fun p hp _ => by
  rw [runOn_append]
  refine ⟨Enclosure.spares_insertAt hp ha _ op, fun id q hrun => ?_⟩
  rw [Prod.mk.injEq, Except.ok.injEq] at hrun
  exact hp.new id (Nat.le_of_eq hrun.1)

/-- A creation in front of what is below the device or an operation inside is confined. -/
theorem confined_prepend (ha : a = c.device ∨ c.inside a) (op : Operation) :
    Confined c A (prepend a op) c.inside := fun p hp _ => by
  rw [runOn_prepend]
  refine ⟨Enclosure.spares_insertAt hp ha 0 op, fun id q hrun => ?_⟩
  rw [Prod.mk.injEq, Except.ok.injEq] at hrun
  exact hp.new id (Nat.le_of_eq hrun.1)

/-- A change of an operation inside is confined. -/
theorem confined_update (hx : c.inside x) (f : Operation → Operation) :
    Confined c A (update x f) anything := fun p hp _ => by
  rw [runOn_update]
  exact ⟨Enclosure.spares_modify hp hx f, fun _ _ _ => trivial⟩

/-- The erasure of an operation inside is confined but for this operation. -/
theorem confined_erase (hA : A x) (hx : c.inside x) :
    ConfinedBut c A (· = x) (erase x) anything := fun p hp hlinked => by
  rw [runOn_erase]
  exact ⟨Enclosure.spares_erase hp hx ((hlinked x hA).lt_size hp.tree) rfl, fun _ _ _ => trivial⟩

end Action

end TileFlow
