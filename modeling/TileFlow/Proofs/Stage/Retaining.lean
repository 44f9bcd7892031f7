import TileFlow.Proofs.Forest.Place
import TileFlow.Proofs.Program.Arrangement
import TileFlow.Proofs.Program.Evolution
import TileFlow.Proofs.Stage.Action

/-!
# Operations that are lost, and actions that lose none

An operation that is not erased should be in the body. An insertion breaks this when it is made
next to an operation that was cut out: the new operation is not erased, but no walk gets there.
Some operations are replaced where they are, by new ones that are put before them, and they are
looked up all at once; of two that are one below the other, the inner one is gone when its turn
comes.

An action retains the body when it leaves a tidy program tidy, whether it succeeds or gives up, and
cuts out some trees at most. It may rely on operations that are in the body when it starts, next to
which it puts new ones, and hands on others that are there when it succeeds. Each way of putting
actions together has its rule: actions that only insert and change may follow each other freely, and
after one that erases nothing can be relied on any more, unless it stands apart.

## Main definitions

* `Program.Apart`: no operation that is replaced where it is stands below another of its name.
* `Program.Tidy`: no erased operation is in the body and, under a condition, every other one is.
* `Program.Retains`: what is in the body stays there, apart from some trees.
* `Action.RetainsBut`, `Action.RetainsAll`: actions on tidy programs.
* `Action.TidyAt`: actions that leave one program tidy.

## Main results

* `Program.Tidy.insertAt`, `Program.Tidy.erase`, `Program.Tidy.modify`, `Program.Tidy.moveTo`: the
  edits of tidy programs.
* `Program.retains_insertBefore`, `Program.retains_erase`, `Program.retains_modify`: what stays.
* `Action.RetainsBut.bind`, `Action.RetainsBut.get_bind`: actions one after the other.
* `Action.RetainsBut.foldlM`, `Action.RetainsBut.foldlM_erasing`: loops.
* `Action.retains_insertBefore`, `Action.retains_append`, `Action.retains_erase`,
  `Action.retains_update`: the edits.
* `Action.tidyAt_moveAll`: a loop that moves trees to the top.
-/

/-! ## Tidy programs -/

namespace TileFlow

/-- The operations that are replaced where they are. -/
def replacedNames : List String :=
  ["aie.objectfifo", "aiex.broadcast_packet", "aiex.multicast", "aiex.ipu.dma_memcpy_nd"]

namespace Program

/-- Whether no operation that is replaced where it is stands below another of its name. -/
def Apart (p : Program) : Prop :=
  ∀ name ∈ replacedNames, ∀ a ∈ p.findAll name, p.findIn a name = []

instance (p : Program) : Decidable p.Apart :=
  inferInstanceAs (Decidable (∀ name ∈ replacedNames, ∀ a ∈ p.findAll name, p.findIn a name = []))

/-- A tree whose body has no erased operation. Under a condition, the body has every operation that
is not erased, and those that are replaced where they are stand apart. -/
structure Tidy (S : Prop) (p : Program) : Prop where
  tree : p.Tree
  live : ∀ id ∈ p.walk, p.isLive id = true
  linked : S → ∀ id, p.isLive id = true → id ∈ p.walk
  apart : S → p.Apart

/-- Whether a program comes from a tidy one by edits that cut out some trees only. -/
structure Retains (S : Prop) (gone : OpId → Prop) (p q : Program) : Prop where
  tidy : q.Tidy S
  evolves : p.Evolves q
  kept : S → ∀ id ∈ p.walk, (∀ b, gone b → id ∉ p.interval b) → id ∈ q.walk

variable {S : Prop} {gone : OpId → Prop} {p q r : Program} {a id x y : OpId} {op : Operation}

/-! ### Operations that are replaced where they are -/

/-- No operation of a kind that is replaced has another one of its kind below it. -/
theorem Apart.not_below (hp : p.Apart) {name : String} (hname : name ∈ replacedNames)
    (ha : a ∈ p.walk) (hais : (p.op a).is name = true) (hx : x ∈ p.walkIn a) :
    (p.op x).is name = false := by
  have hnone := hp name hname a (List.mem_filter.2 ⟨ha, hais⟩)
  exact Bool.eq_false_iff.2 (List.filter_eq_nil_iff.1 hnone x hx)

/-- Operations that are replaced stand apart when none has another one of its kind below it. -/
theorem apart_of_not_below (h : ∀ name ∈ replacedNames, ∀ a ∈ p.walk, (p.op a).is name = true →
    ∀ x ∈ p.walkIn a, (p.op x).is name = false) : p.Apart := fun name hname a ha => by
  obtain ⟨hwalk, hais⟩ := List.mem_filter.1 ha
  exact List.filter_eq_nil_iff.2 fun x hx => Bool.eq_false_iff.1 (h name hname a hwalk hais x hx)

/-- Operations stay apart while none gets a name of those that are replaced where they are. -/
theorem Apart.of_evolves (hp : p.Apart) (hpq : p.Evolves q)
    (h : ∀ id ∈ q.walk, ∀ name ∈ replacedNames, (q.op id).is name = true →
      id < p.slots.size ∧ (p.op id).is name = true) : q.Apart := by
  refine apart_of_not_below fun name hname a ha hais x hx => Bool.eq_false_iff.2 fun hxis => ?_
  have hxwalk := hpq.sound.mem_walk_of_walkIn ha hx
  obtain ⟨hlta, hais⟩ := h a ha name hname hais
  obtain ⟨hltx, hxis⟩ := h x hxwalk name hname hxis
  obtain ⟨-, hbelow⟩ := (hpq.walkIn a ha x hxwalk hltx).1 hx
  exact Bool.eq_false_iff.1 (hp.not_below hname (hpq.walk a ha hlta) hais hbelow) hxis

/-- The top is part of the body. -/
theorem holds_none (p : Program) : p.Holds none := fun _ h => nomatch h

/-- An operation whose name is not among those that are replaced is none of them. -/
theorem Operation.is_of_notMem {name : String} (h : op.name ∉ replacedNames)
    (hname : name ∈ replacedNames) : op.is name ≠ true := fun his =>
  h (beq_iff_eq.1 his ▸ hname)

/-- Below an operation other than the one at the top that a tree is moved to, nothing is new. -/
theorem Tree.mem_walkIn_of_moveTo (hp : p.Tree) (ha : a ∈ p.body.roots) (hid : id ∈ p.walk)
    (hne : id ≠ a) (hx : x ∈ p.walk) (hxa : x ≠ a) (hy : y ∈ (p.moveTo id (some a)).walkIn x) :
    y ∈ p.walkIn x := by
  obtain ⟨g, hg, hgbelow⟩ := exists_below hid
  obtain ⟨h, hh, hhbelow⟩ := exists_below hx
  have hrest := hp.distinct_body.remove id
  have haroot : a ∈ (p.body.remove id).roots := by
    rw [Forest.roots_remove hp.distinct_body]
    exact List.mem_filter.2 ⟨ha, by simpa using Ne.symm hne⟩
  obtain ⟨k, hk⟩ := Forest.mem_preorder_iff.1 (Forest.mem_preorder_of_mem_roots haroot)
  have hbody : (p.moveTo id (some a)).body =
      (p.body.remove id).update a (· ++ .single id g) := by rw [body_moveTo, hgbelow]
  have hmoved := (hp.moveTo (hp.sound.created id hid) (some a)).distinct_body
  have hatop := Forest.below?_update_self hk (· ++ Forest.single id g)
  have hidk : id ∉ k.preorder := fun hmem => ((Forest.mem_preorder_remove hp.distinct_body hg).1
    ((hrest.below hk).2.2 id hmem)).2.1 rfl
  rw [hbody] at hmoved
  have hidtop := Forest.below?_trans hmoved hatop (Forest.below?_append_single hidk)
  rw [walkIn, hhbelow]
  by_cases hmem : x = id ∨ x ∈ g.preorder
  · -- The tree that is moved stays as it is.
    suffices hsame : (p.moveTo id (some a)).body.below? x = some h by
      rwa [walkIn, below_of_below? hsame] at hy
    rw [hbody]
    rcases hmem with rfl | hmem
    · rw [hidtop, ← hg, hh]
    · obtain ⟨m, hm⟩ := Forest.mem_preorder_iff.1 hmem
      rw [Forest.below?_trans hmoved hidtop hm, ← Forest.below?_trans hp.distinct_body hg hm, hh]
  · obtain ⟨hxid, hxg⟩ := not_or.1 hmem
    have hcut := Forest.below?_remove_of_notMem hp.distinct_body hg hxid hxg
    rw [hh, Option.map_some] at hcut
    suffices hsame : (p.moveTo id (some a)).body.below? x = some (h.remove id) by
      rw [walkIn, below_of_below? hsame] at hy
      exact Forest.mem_preorder_of_mem_remove hy
    rw [hbody]
    by_cases hxk : x ∈ k.preorder
    · obtain ⟨m, hm⟩ := Forest.mem_preorder_iff.1 hxk
      have hxtop : (k ++ Forest.single id g).below? x = some m := by
        rw [Forest.below?_append, hm, Option.some_or]
      rw [Forest.below?_trans hmoved hatop hxtop, ← Forest.below?_trans hrest hk hm, hcut]
    · have hxu : x ∉ (k ++ Forest.single id g).preorder := by
        rw [Forest.preorder_append, List.mem_append, not_or]
        exact ⟨hxk, by simpa [Forest.single] using ⟨hxid, hxg⟩⟩
      have hah : a ∉ (h.remove id).preorder := fun hmem =>
        hrest.notMem_roots_of_below hcut hmem haroot
      rw [Forest.below?_update_of_notMem hrest hk (fun b hb => by
          rw [Forest.preorder_append, List.mem_append]
          exact .inl hb) hxa hxu, hcut, Option.map_some, Forest.update_eq_self hah]

/-! ### Edits of tidy programs -/

namespace Tidy

/-- A tidy program is sound. -/
theorem sound (hp : p.Tidy S) : p.Sound :=
  hp.tree.sound

/-- A new operation that is not replaced later, at a place in the body. -/
theorem insertAt (hp : p.Tidy S) {parent : Option OpId} (hparent : S → p.Holds parent) (i : Nat)
    (hop : op.name ∉ replacedNames) : (p.insertAt parent i op).2.Tidy S := by
  have hcreated := created_insertAt hp.sound parent i op
  refine ⟨hp.tree.insertAt parent i op, fun id hid => ?_, fun hS id hid => ?_, fun hS => ?_⟩
  · rw [isLive_insertAt]
    exact ((hcreated.walk id).1 hid).imp (hp.live id) And.left
  · rw [hcreated.walk]
    exact ((isLive_insertAt p parent i op).1 hid).imp (hp.linked hS id) fun heq =>
      ⟨heq, hparent hS⟩
  · refine (hp.apart hS).of_evolves (hcreated.evolves hp.sound) fun id hid name hname his => ?_
    rcases (hcreated.walk id).1 hid with hold | ⟨rfl, -⟩
    · have hlt := hp.sound.created id hold
      rw [(hcreated.old id hlt).is] at his
      exact ⟨hlt, his⟩
    · rw [hcreated.header.is] at his
      exact absurd his (Operation.is_of_notMem hop hname)

/-- A change that gives no operation the name of one that is replaced. -/
theorem modify (hp : p.Tidy S) (id : OpId) {f : Operation → Operation}
    (hf : ∀ op, (f op).name = op.name ∨ (f op).name ∉ replacedNames) : (p.modify id f).Tidy S := by
  refine ⟨hp.tree.modify id f, fun j hj => ?_, fun hS j hj => hp.linked hS j ?_, fun hS => ?_⟩
  · rw [isLive_modify]
    exact hp.live j hj
  · rwa [isLive_modify] at hj
  · refine apart_of_not_below fun name hname a ha hais x hx => Bool.eq_false_iff.2 fun hxis => ?_
    have hold : ∀ j, j ∈ p.walk → ((p.modify id f).op j).is name = true →
        (p.op j).is name = true := fun j hj his => by
      by_cases hji : j = id
      · subst hji
        rw [op_modify_self (hp.sound.created j hj)] at his
        rcases hf (p.op j) with heq | hnot
        · rwa [Operation.is, heq] at his
        · exact absurd his (Operation.is_of_notMem hnot hname)
      · rwa [op_modify_of_ne hji] at his
    exact Bool.eq_false_iff.1 ((hp.apart hS).not_below hname ha (hold a ha hais) hx)
      (hold x (hp.sound.mem_walk_of_walkIn ha hx) hxis)

/-- An erasure, be it of an operation that is in the body or not. -/
theorem erase (hp : p.Tidy S) (hid : id < p.slots.size) : (p.erase id).Tidy S := by
  refine ⟨hp.tree.erase hid, fun j hj => ?_, fun hS j hj => ?_, fun hS => ?_⟩
  · obtain ⟨hwalk, hne, hnot⟩ := (mem_walk_erase hp.sound).1 hj
    exact (isLive_erase p id j).2 ⟨hp.live j hwalk, hne, hnot⟩
  · obtain ⟨hlive, hne, hnot⟩ := (isLive_erase p id j).1 hj
    exact (mem_walk_erase hp.sound).2 ⟨hp.linked hS j hlive, hne, hnot⟩
  · have hcut := cut_erase hp.sound hid
    refine (hp.apart hS).of_evolves (hcut.evolves hp.sound) fun j hj name _ his => ?_
    rw [op_erase] at his
    exact ⟨hp.sound.created j ((hcut.walk j).1 hj).1, his⟩

/-- A move to an operation at the top that is not replaced itself. -/
theorem moveTo (hp : p.Tidy S) (ha : a ∈ p.body.roots) (haname : (p.op a).name ∉ replacedNames)
    (hid : id ∈ p.walk) (hne : id ≠ a) : (p.moveTo id (some a)).Tidy S := by
  obtain ⟨-, hwalk⟩ := hp.tree.moveTo_root ha hid hne
  have hawalk := mem_walk_of_mem_roots ha
  have hop : ∀ j name, ((p.moveTo id (some a)).op j).is name = (p.op j).is name := fun j name => by
    by_cases hja : j = a
    · subst hja
      rw [op_moveTo_parent (hp.sound.created j hawalk)]
      rfl
    · rw [op_congr (slot_moveTo_of_ne hja)]
  refine ⟨hp.tree.moveTo (hp.sound.created id hid) _, fun j hj => ?_, fun hS j hj => ?_,
    fun hS => ?_⟩
  · rw [isLive_moveTo]
    exact hp.live j ((hwalk j).1 hj)
  · rw [isLive_moveTo] at hj
    exact (hwalk j).2 (hp.linked hS j hj)
  · refine apart_of_not_below fun name hname b hb hbis y hy => ?_
    rw [hop] at hbis ⊢
    have hba : b ≠ a := by
      rintro rfl
      exact Operation.is_of_notMem haname hname hbis
    have hbwalk := (hwalk b).1 hb
    exact (hp.apart hS).not_below hname hbwalk hbis
      (hp.tree.mem_walkIn_of_moveTo ha hid hne hbwalk hba hy)

end Tidy

/-! ### What stays in the body -/

/-- A tidy program retains what it has. -/
theorem Retains.refl (hp : p.Tidy S) : p.Retains S gone p :=
  ⟨hp, .refl hp.sound, fun _ _ hid _ => hid⟩

/-- What is retained but for some operations is retained but for more. -/
theorem Retains.mono {gone' : OpId → Prop} (h : p.Retains S gone q)
    (hgone : ∀ id, gone id → gone' id) : p.Retains S gone' q :=
  { h with kept := fun hS id hid hnot => h.kept hS id hid fun b hb => hnot b (hgone b hb) }

/-- What is outside of a tree stays outside. -/
theorem Evolves.notMem_interval (h : p.Evolves q) (hid : id ∈ p.walk) (hidq : id ∈ q.walk)
    (hp : p.Sound) (hnot : id ∉ p.interval x) : id ∉ q.interval x := fun hmem => by
  rcases List.mem_cons.1 hmem with rfl | hin
  · exact hnot List.mem_cons_self
  · have hx : x ∈ q.walk := h.sound.mem_walk_of_below hin hidq
    obtain ⟨-, hold⟩ := (h.walkIn x hx id hidq (hp.created id hid)).1 hin
    exact hnot (List.mem_cons_of_mem _ hold)

/-- What is retained twice is retained over both steps. -/
theorem Retains.trans (hp : p.Tidy S) (h : p.Retains S gone q) (h' : q.Retains S gone r) :
    p.Retains S gone r where
  tidy := h'.tidy
  evolves := h.evolves.trans h'.evolves
  kept hS id hid hnot := by
    have hidq := h.kept hS id hid hnot
    exact h'.kept hS id hidq fun b hb => h.evolves.notMem_interval hid hidq hp.sound (hnot b hb)

/-- A creation in the body retains all that there was. -/
theorem retains_insertAt (hp : p.Tidy S) {parent : Option OpId} (hparent : S → p.Holds parent)
    (i : Nat) (hop : op.name ∉ replacedNames) : p.Retains S gone (p.insertAt parent i op).2 :=
  have hcreated := created_insertAt hp.sound parent i op
  ⟨hp.insertAt hparent i hop, hcreated.evolves hp.sound, fun _ id hid _ =>
    (hcreated.walk id).2 (.inl hid)⟩

/-- A new operation before one of the body is in the body. -/
theorem insertBefore_place (hp : p.Tree) (x : OpId) (op : Operation) :
    ∃ parent i, p.insertBefore x op = p.insertAt parent i op ∧ (x ∈ p.walk → p.Holds parent) := by
  by_cases hx : x ∈ p.walk
  · obtain ⟨parent, i, hplace, -, hholds⟩ := hp.exists_place hx
    exact ⟨parent, i, by rw [insertBefore, hplace], fun _ => hholds⟩
  · obtain ⟨parent, i, hinsert⟩ := insertBefore_eq p x op
    exact ⟨parent, i, hinsert, fun h => absurd h hx⟩

/-- A change that makes no operation one that is replaced retains all that there was. -/
theorem retains_modify (hp : p.Tidy S) (id : OpId) {f : Operation → Operation}
    (hf : ∀ op, (f op).name = op.name ∨ (f op).name ∉ replacedNames) :
    p.Retains S gone (p.modify id f) where
  tidy := hp.modify id hf
  evolves := ⟨hp.sound.modify id f, Nat.le_of_eq (size_modify p id f).symm, fun _ hid _ => hid,
    fun a ha _ _ _ => ⟨fun h => ⟨hp.sound.created a ha, h⟩, And.right⟩⟩
  kept _ _ hid _ := hid

/-- An erasure retains all but the tree of the operation. -/
theorem retains_erase (hp : p.Tidy S) (hid : id < p.slots.size) (hgone : gone id) :
    p.Retains S gone (p.erase id) where
  tidy := hp.erase hid
  evolves := (cut_erase hp.sound hid).evolves hp.sound
  kept _ j hj hnot := by
    have hapart := hnot id hgone
    rw [interval, List.mem_cons, not_or] at hapart
    exact (mem_walk_erase hp.sound).2 ⟨hj, hapart⟩

end Program

end TileFlow

/-! ## Retaining actions -/

namespace TileFlow.Action

variable {α β : Type} {S : Prop} {n m : Nat} {A G : OpId → Prop} {L : α → OpId → Prop}
  {L' : β → OpId → Prop} {p : Program} {a id : OpId} {l : List β} {op : Operation}

/-- No operation in the result of an action. -/
def noResult : α → OpId → Prop := fun _ _ => False

/-- Whether an action, wherever `n` operations were created and those at `A` are in the body, leaves
a tidy program tidy, cuts out no trees but those at `G`, and hands on operations of the body. -/
def RetainsBut (S : Prop) (n : Nat) (A G : OpId → Prop) (x : Action α) (L : α → OpId → Prop) :
    Prop :=
  ∀ p : Program, p.Tidy S → n ≤ p.slots.size → (S → ∀ id, A id → id ∈ p.walk) →
    p.Retains S G (runOn x p).2 ∧
      ∀ a q, runOn x p = (.ok a, q) → S → ∀ id, L a id → id ∈ q.walk

/-- Whether an action cuts nothing out. -/
abbrev RetainsAll (S : Prop) (n : Nat) (A : OpId → Prop) (x : Action α) (L : α → OpId → Prop) :
    Prop :=
  RetainsBut S n A (fun _ => False) x L

/-- An action retains under stronger conditions, and but for more operations. -/
theorem RetainsBut.mono {A' G' : OpId → Prop} {x : Action α} (h : RetainsBut S n A G x L)
    (hn : n ≤ m) (hA : S → ∀ id, A id → A' id) (hG : ∀ id, G id → G' id) :
    RetainsBut S m A' G' x L := fun p hp hm hA' =>
  have hx := h p hp (Nat.le_trans hn hm) fun hS id hid => hA' hS id (hA hS id hid)
  ⟨hx.1.mono hG, hx.2⟩

/-! ### Actions that look -/

/-- An action that edits nothing retains all that there was. -/
theorem retains_of_eq {x : Action α} (h : ∀ p, (runOn x p).2 = p) :
    RetainsBut S n A G x noResult :=
  fun p hp _ _ => ⟨by rw [h]; exact .refl hp, fun _ _ _ _ _ hid => hid.elim⟩

/-- An action that only gives a result retains all that there was, and hands on operations of the
body. -/
theorem retains_pure {a : α} (ha : S → ∀ id, L a id → A id) : RetainsBut S n A G (pure a) L :=
  fun p hp _ hA => ⟨.refl hp, fun b q hrun hS id hid => by
    obtain ⟨rfl, rfl⟩ := pure_ok.1 hrun
    exact hA hS id (ha hS id hid)⟩

/-- An action that only gives a result retains all that there was. -/
theorem retains_pure_unit (a : α) : RetainsBut S n A G (pure a) noResult :=
  retains_of_eq fun _ => rfl

/-- Nothing runs behind an action that gives up. -/
theorem retains_throw_bind (e : StageError) (f : α → Action β) :
    RetainsBut S n A G ((throw e : Action α) >>= f) L' := fun _ hp _ _ =>
  ⟨.refl hp, fun _ _ hrun => nomatch hrun⟩

/-- An optional value retains all that there was. -/
theorem retains_orFail (x : Option α) (e : StageError) :
    RetainsBut S n A G (orFail x e) noResult :=
  retains_of_eq fun _ => by cases x <;> rfl

/-- A condition retains all that there was. -/
theorem retains_ensure (condition : Bool) (e : StageError) :
    RetainsBut S n A G (ensure condition e) noResult :=
  retains_of_eq fun _ => by cases condition <;> rfl

/-! ### Actions one after the other -/

/-- A second action may rely on what a first one found in the body, and on what it hands on. -/
theorem RetainsBut.bind_result {x : Action α} {f : α → Action β} (hx : RetainsAll S n A x L)
    (hf : ∀ a, RetainsBut S n (fun id => A id ∨ L a id) G (f a) L') :
    RetainsBut S n A G (x >>= f) L' := fun p hp hn hA => by
  obtain ⟨hretains, hresult⟩ := hx p hp hn hA
  rw [runOn_bind]
  rcases hrun : runOn x p with ⟨e | a, q⟩
  · rw [hrun] at hretains
    exact ⟨hretains.mono fun _ h => h.elim, fun _ _ h => nomatch h⟩
  · rw [hrun] at hretains
    obtain ⟨hthen, hlast⟩ := hf a q hretains.tidy (Nat.le_trans hn hretains.evolves.size)
      fun hS id hid => hid.elim
        (fun hid => hretains.kept hS id (hA hS id hid) fun _ h => h.elim) (hresult a q hrun hS id)
    exact ⟨(hretains.mono fun _ h => h.elim).trans hp hthen, hlast⟩

/-- An action that cuts nothing out may be followed by one that works on what it hands on. -/
theorem RetainsBut.bind {x : Action α} {f : α → Action β} (hx : RetainsAll S n A x L)
    (hf : ∀ a, RetainsBut S n A G (f a) L') : RetainsBut S n A G (x >>= f) L' :=
  hx.bind_result fun a => (hf a).mono (Nat.le_refl n) (fun _ _ => .inl) fun _ h => h

/-- After an action that cuts trees out, a second one runs without anything to rely on. -/
theorem RetainsBut.bind_after {x : Action α} {f : α → Action β} (hx : RetainsBut S n A G x L)
    (hf : ∀ a, RetainsBut S n (fun _ => False) G (f a) L') : RetainsBut S n A G (x >>= f) L' :=
  fun p hp hn hA => by
    obtain ⟨hretains, -⟩ := hx p hp hn hA
    rw [runOn_bind]
    rcases hrun : runOn x p with ⟨e | a, q⟩
    · rw [hrun] at hretains
      exact ⟨hretains, fun _ _ h => nomatch h⟩
    · rw [hrun] at hretains
      obtain ⟨hthen, hlast⟩ := hf a q hretains.tidy (Nat.le_trans hn hretains.evolves.size)
        fun _ _ h => h.elim
      exact ⟨hretains.trans hp hthen, hlast⟩

/-- An action that starts by looking at the program may rely on all that is in the body there. -/
theorem RetainsBut.get_bind {f : Program → Action β}
    (hf : ∀ p : Program, p.Tidy S → n ≤ p.slots.size → (S → ∀ id, A id → id ∈ p.walk) →
      RetainsBut S p.slots.size (· ∈ p.walk) G (f p) L') : RetainsBut S n A G (get >>= f) L' :=
  fun p hp hn hA =>
    have h := hf p hp hn hA p hp (Nat.le_refl _) fun _ _ hid => hid
    ⟨by rw [runOn_bind]; exact h.1, fun a q hrun => h.2 a q (get_bind_ok.1 hrun)⟩

/-! ### Loops -/

/-- A fold retains what its rounds retain. -/
theorem RetainsBut.foldlM {f : α → β → Action α}
    (hf : ∀ b ∈ l, ∀ a, RetainsAll S n A (f a b) noResult) (a : α) :
    RetainsAll S n A (l.foldlM f a) noResult := by
  induction l generalizing a with
  | nil => exact retains_pure_unit a
  | cons b l ih =>
      rw [List.foldlM_cons]
      exact (hf b List.mem_cons_self a).bind fun a' => ih (fun c hc => hf c (.tail _ hc)) a'

/-- A loop retains what its rounds retain. -/
theorem RetainsBut.forM {f : β → Action Unit} (hf : ∀ b ∈ l, RetainsAll S n A (f b) noResult) :
    RetainsAll S n A (l.forM f) noResult := by
  rw [forM_eq_foldlM]
  exact foldlM (fun b hb _ => hf b hb) ()

/-- A traversal retains what its rounds retain. -/
theorem RetainsBut.mapM {f : β → Action α} (hf : ∀ b ∈ l, RetainsAll S n A (f b) noResult) :
    RetainsAll S n A (l.mapM f) noResult := by
  induction l with
  | nil => exact retains_pure_unit []
  | cons b l ih =>
      rw [List.mapM_cons]
      exact (hf b List.mem_cons_self).bind fun c =>
        (ih fun d hd => hf d (.tail _ hd)).bind fun cs => retains_pure_unit (c :: cs)

/-- A loop whose rounds cut trees out and rely on nothing. -/
theorem RetainsBut.foldlM_loose {f : α → β → Action α}
    (hf : ∀ b ∈ l, ∀ a, RetainsBut S n (fun _ => False) G (f a b) noResult) (a : α) :
    RetainsBut S n A G (l.foldlM f a) noResult := by
  induction l generalizing a A with
  | nil => exact retains_pure_unit a
  | cons b l ih =>
      rw [List.foldlM_cons]
      exact ((hf b List.mem_cons_self a).mono (Nat.le_refl n) (fun _ _ h => h.elim)
        fun _ h => h).bind_after fun a' => ih (fun c hc => hf c (.tail _ hc)) a'

/-- A loop whose rounds need nothing of the body retains all but what they cut out. -/
theorem RetainsBut.forM_loose {f : β → Action Unit}
    (hf : ∀ b ∈ l, RetainsBut S n (fun _ => False) G (f b) noResult) :
    RetainsBut S n A G (l.forM f) noResult := by
  rw [forM_eq_foldlM]
  exact foldlM_loose (fun b hb _ => hf b hb) ()

/-- A loop over different operations, each of which is cut out by its own round. What a round relies
on is in the body at first, and in no tree that another round cuts out. -/
theorem RetainsBut.foldlM_erasing {f : α → OpId → Action α} {l : List OpId} {A : OpId → OpId → Prop}
    (hl : l.Nodup) (hp : p.Tidy S) (hn : n ≤ p.slots.size)
    (hA : S → ∀ b ∈ l, ∀ x, A b x → x ∈ p.walk ∧ ∀ d ∈ l, d ≠ b → x ∉ p.interval d)
    (hf : ∀ b ∈ l, ∀ a, RetainsBut S n (A b) (· = b) (f a b) noResult) (a : α) :
    p.Retains S (· ∈ l) (runOn (l.foldlM f a) p).2 := by
  induction l generalizing p a with
  | nil => exact .refl hp
  | cons b l ih =>
      obtain ⟨hfresh, hl⟩ := List.nodup_cons.1 hl
      obtain ⟨hfirst, -⟩ := hf b List.mem_cons_self a p hp hn
        fun hS x hx => (hA hS b List.mem_cons_self x hx).1
      rw [List.foldlM_cons, runOn_bind]
      rcases hrun : runOn (f a b) p with ⟨e | a', q⟩
      · rw [hrun] at hfirst
        exact hfirst.mono fun _ hid => hid ▸ List.mem_cons_self
      · rw [hrun] at hfirst
        -- What a later round relies on is apart from the tree that this one has cut out.
        have hrest := ih hl hfirst.tidy (Nat.le_trans hn hfirst.evolves.size)
          (fun hS c hc x hx => by
            obtain ⟨hwalk, hapart⟩ := hA hS c (.tail _ hc) x hx
            have hstays := hfirst.kept hS x hwalk fun d hd => hd ▸
              hapart b List.mem_cons_self fun heq => hfresh (heq ▸ hc)
            exact ⟨hstays, fun d hd hne => hfirst.evolves.notMem_interval hwalk hstays hp.sound
              (hapart d (.tail _ hd) hne)⟩)
          (fun c hc => hf c (.tail _ hc)) a'
        exact (hfirst.mono fun _ hid => hid ▸ List.mem_cons_self).trans hp
          (hrest.mono fun _ hid => .tail _ hid)

/-! ### Edits -/

/-- A creation before an operation of the body retains all that there was, and makes one of the
body. -/
theorem retains_insertBefore (ha : S → A a) (hop : op.name ∉ replacedNames) :
    RetainsAll S n A (insertBefore a op) fun new id => id = new := fun p hp _ hA => by
  obtain ⟨parent, i, hinsert, hholds⟩ := Program.insertBefore_place hp.tree a op
  have hparent : S → p.Holds parent := fun hS => hholds (hA hS a (ha hS))
  rw [runOn_insertBefore, hinsert]
  refine ⟨Program.retains_insertAt hp hparent i hop, fun new q hrun hS id hid => ?_⟩
  rw [Prod.mk.injEq, Except.ok.injEq, Program.fst_insertAt] at hrun
  obtain ⟨rfl, rfl⟩ := hrun
  exact ((Program.created_insertAt hp.sound parent i op).walk id).2 (.inr ⟨hid, hparent hS⟩)

/-- A new child of an operation of the body is in the body. -/
theorem retains_insert {x : Action OpId} (i : Program → Nat) (ha : S → A a)
    (hx : ∀ p : Program, runOn x p =
      (.ok (p.insertAt (some a) (i p) op).1, (p.insertAt (some a) (i p) op).2))
    (hop : op.name ∉ replacedNames) : RetainsAll S n A x fun new id => id = new :=
  fun p hp _ hA => by
    have hparent : S → p.Holds (some a) := fun hS b hb => by
      cases hb
      exact hA hS a (ha hS)
    rw [hx]
    refine ⟨Program.retains_insertAt hp hparent (i p) hop, fun new q hrun hS id hid => ?_⟩
    rw [Prod.mk.injEq, Except.ok.injEq, Program.fst_insertAt] at hrun
    obtain ⟨rfl, rfl⟩ := hrun
    exact ((Program.created_insertAt hp.sound _ (i p) op).walk id).2 (.inr ⟨hid, hparent hS⟩)

/-- A creation below an operation of the body retains all that there was, and makes one of the body.
-/
theorem retains_append (ha : S → A a) (hop : op.name ∉ replacedNames) :
    RetainsAll S n A (append a op) fun new id => id = new :=
  retains_insert (fun p => (p.children (some a)).length) ha (fun _ => rfl) hop

/-- A creation in front of what is below an operation of the body retains all that there was. -/
theorem retains_prepend (ha : S → A a) (hop : op.name ∉ replacedNames) :
    RetainsAll S n A (prepend a op) fun new id => id = new :=
  retains_insert (fun _ => 0) ha (fun _ => rfl) hop

/-- A change that makes no operation one that is replaced retains all that there was. -/
theorem retains_update (id : OpId) {f : Operation → Operation}
    (hf : ∀ op, (f op).name = op.name ∨ (f op).name ∉ replacedNames) :
    RetainsAll S n A (update id f) noResult := fun _ hp _ _ =>
  ⟨Program.retains_modify hp id hf, fun _ _ _ _ _ h => h.elim⟩

/-- An erasure retains all but the tree of the operation. -/
theorem retains_erase (hid : id < n) (hG : G id) : RetainsBut S n A G (erase id) noResult :=
  fun _ hp hn _ =>
    ⟨Program.retains_erase hp (Nat.lt_of_lt_of_le hid hn) hG, fun _ _ _ _ _ h => h.elim⟩

/-! ### One program -/

/-- Whether an action leaves a program tidy. -/
def TidyAt (S : Prop) (p : Program) (x : Action α) : Prop :=
  (runOn x p).2.Tidy S

/-- An action that retains leaves a tidy program tidy. -/
theorem RetainsBut.tidyAt {x : Action α} (h : RetainsBut S n A G x L) (hp : p.Tidy S)
    (hn : n ≤ p.slots.size) (hA : S → ∀ id, A id → id ∈ p.walk) : TidyAt S p x :=
  (h p hp hn hA).1.tidy

/-- Actions that leave a program tidy may follow each other. -/
theorem TidyAt.bind {x : Action α} {f : α → Action β} (hx : TidyAt S p x)
    (hf : ∀ a q, runOn x p = (.ok a, q) → q.Tidy S → TidyAt S q (f a)) : TidyAt S p (x >>= f) := by
  rw [TidyAt] at hx
  rw [TidyAt, runOn_bind]
  rcases h : runOn x p with ⟨e | a, q⟩
  · rwa [h] at hx
  · rw [h] at hx
    exact hf a q h hx

/-- Reading the program leaves it as tidy as what is done with it. -/
theorem TidyAt.get_bind {f : Program → Action β} (hf : TidyAt S p (f p)) : TidyAt S p
    (get >>= f) := by
  rw [TidyAt, runOn_bind]
  exact hf

/-- A loop leaves a program tidy when its rounds do, as far as a property of what is left to do
tells, which the rounds hand on. -/
theorem TidyAt.foldlM {f : α → β → Action α} {I : List β → Program → Prop} (hp : p.Tidy S)
    (start : I l p) (step : ∀ b rest a q, I (b :: rest) q → q.Tidy S →
      TidyAt S q (f a b) ∧ ∀ a' r, runOn (f a b) q = (.ok a', r) → I rest r) (a : α) :
    TidyAt S p (l.foldlM f a) := by
  induction l generalizing p a with
  | nil => exact hp
  | cons b l ih =>
      rw [List.foldlM_cons]
      obtain ⟨hfirst, hnext⟩ := step b l a p start hp
      exact hfirst.bind fun a' q hrun hq => ih hq (hnext a' q hrun) a'

/-- A loop with an invariant of the rounds to come leaves a program tidy when its rounds do. -/
theorem TidyAt.forM {f : β → Action Unit} {I : List β → Program → Prop} (hp : p.Tidy S)
    (start : I l p) (step : ∀ b rest q, I (b :: rest) q → q.Tidy S →
      TidyAt S q (f b) ∧ ∀ r, runOn (f b) q = (.ok (), r) → I rest r) :
    TidyAt S p (l.forM f) := by
  rw [forM_eq_foldlM]
  exact foldlM hp start (fun b rest _ q hI hq =>
    have h := step b rest q hI hq
    ⟨h.1, fun _ r hrun => h.2 r hrun⟩) ()

/-- Operations of the body are moved below one at the top that is not replaced later. -/
theorem tidyAt_moveAll {l : List OpId} (hp : p.Tidy S) (ha : a ∈ p.body.roots)
    (hname : (p.op a).name ∉ replacedNames) (hl : ∀ id ∈ l, id ∈ p.walk ∧ id ≠ a) :
    TidyAt S p (l.forM fun id => moveTo id a) := by
  refine TidyAt.forM (I := fun rest q => a ∈ q.body.roots ∧ (q.op a).name ∉ replacedNames ∧
    ∀ id ∈ rest, id ∈ q.walk ∧ id ≠ a) hp ⟨ha, hname, hl⟩ fun id rest q hI hq => ?_
  obtain ⟨hroot, hname, hrest⟩ := hI
  obtain ⟨hid, hne⟩ := hrest id List.mem_cons_self
  obtain ⟨hroot', hwalk⟩ := hq.tree.moveTo_root hroot hid hne
  refine ⟨hq.moveTo hroot hname hid hne, fun r hrun => ?_⟩
  rw [runOn_moveTo, Prod.mk.injEq] at hrun
  obtain ⟨-, rfl⟩ := hrun
  refine ⟨hroot', ?_, fun j hj => ?_⟩
  · rwa [Program.op_moveTo_parent (hq.sound.created a (Program.mem_walk_of_mem_roots hroot))]
  · obtain ⟨hjwalk, hja⟩ := hrest j (.tail _ hj)
    exact ⟨(hwalk j).2 hjwalk, hja⟩

end TileFlow.Action
