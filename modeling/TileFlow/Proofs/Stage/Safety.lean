import TileFlow.Proofs.Program.Arena
import TileFlow.Proofs.Program.Evolution
import TileFlow.Proofs.Stage.Action

/-!
# Actions that keep programs orderly

A program is orderly when it is a tree and no value is defined twice. An action is safe when it
leaves an orderly program orderly, forgets no operation and does nothing but edits that are the same
edits of the arena, whether it succeeds or gives up: what it has changed until it gives up stays
changed. Each way of putting actions together keeps them safe, and so do the edits: an erased
operation, an anchor and a parent must have been created, a moved operation must be linked, and the
value of a new one must not be defined yet.

## Main definitions

* `Program.Orderly`: trees with unique values.
* `Action.SafeAt`, `Action.Safe`: actions that keep programs orderly.
* `Action.Yields`: safe actions that return an operation.
* `Action.Ensures`: safe actions, with what holds of the program when they succeed.

## Main results

* `Action.Safe.bind`, `Action.Ensures.bind`: actions one after the other.
* `Action.Safe.forM`, `Action.Ensures.forM`: loops.
* `Action.safe_update`, `Action.safe_erase`, `Action.safeAt_insertBefore`: the edits.
* `Action.safeAt_moveAll`: a loop that moves trees.
-/

namespace TileFlow

namespace Program

variable {p : Program} {id a : OpId} {parent : Option OpId}

/-- A tree in which no value is defined twice. -/
structure Orderly (p : Program) : Prop where
  tree : p.Tree
  values : p.definedValues.Nodup

/-- A change that keeps results keeps that of every operation. -/
theorem result_modify {f : Operation → Operation} (hf : ∀ op, (f op).result = op.result)
    (id j : OpId) : ((p.modify id f).op j).result = (p.op j).result := by
  rw [Program.op, modify, Array.getElem?_modify, Program.op]
  split
  · cases p.slots[j]?
    · rfl
    · exact hf _
  · rfl

namespace Orderly

/-- An orderly program is sound. -/
theorem sound (hp : p.Orderly) : p.Sound :=
  hp.tree.sound

/-- What is found below an operation was created. -/
theorem lt_size_of_findIn (hp : p.Orderly) {name : String} (hid : id ∈ p.findIn a name) :
    id < p.slots.size :=
  hp.sound.lt_size_of_walkIn (List.mem_filter.1 hid).1

/-- The creation of an operation with a fresh result leaves an orderly program. -/
theorem insertAt (hp : p.Orderly) (parent : Option OpId) (i : Nat) {op : Operation}
    (hfresh : ∀ v, op.result = some v → v ∉ p.definedValues) :
    (p.insertAt parent i op).2.Orderly :=
  ⟨hp.tree.insertAt parent i op,
    (created_insertAt hp.sound parent i op).nodup hp.sound hp.values hfresh⟩

/-- A change that keeps results leaves an orderly program. -/
theorem modify (hp : p.Orderly) (id : OpId) {f : Operation → Operation}
    (hf : ∀ op, (f op).result = op.result) : (p.modify id f).Orderly :=
  ⟨hp.tree.modify id f, nodup_of_results hp.values (hp.sound.modify id f).toWellFormed
    fun j hj => ⟨hj, result_modify hf id j⟩⟩

/-- An erasure leaves an orderly program. -/
theorem erase (hp : p.Orderly) (hid : id < p.slots.size) : (p.erase id).Orderly :=
  ⟨hp.tree.erase hid, nodup_of_results hp.values (hp.tree.erase hid).sound.toWellFormed
    fun j hj => ⟨((mem_walk_erase hp.sound).1 hj).1, by rw [op_erase]⟩⟩

/-- A move within the body leaves an orderly program. -/
theorem moveTo (hp : p.Orderly) (hid : id ∈ p.walk) (ha : a ∈ p.walk) (hapart : a ∉ p.interval id) :
    (p.moveTo id (some a)).Orderly := by
  have htree := hp.tree.moveTo (hp.sound.created id hid) (some a)
  refine ⟨htree, nodup_of_results hp.values htree.sound.toWellFormed fun j hj => ⟨?_, ?_⟩⟩
  · exact (hp.tree.mem_walk_moveTo hid (fun b hb => by cases hb; exact ha)
      (fun b hb => by cases hb; exact hapart)).1 hj
  · by_cases hja : j = a
    · subst hja
      rw [op_moveTo_parent (hp.sound.created j ha)]
    · rw [op_congr (slot_moveTo_of_ne hja)]

end Orderly

end Program

namespace Action

variable {α β : Type} {p : Program} {n m : Nat}

/-- Whether an action ends in an orderly program that has all operations of the one before, and that
edits make of it which its arena mirrors. -/
structure SafeAt (p : Program) (x : Action α) : Prop where
  orderly : (runOn x p).2.Orderly
  size : p.slots.size ≤ (runOn x p).2.slots.size
  mirrors : p.Complete → (runOn x p).2.Complete ∧ p.Mirrors (runOn x p).2

/-- Whether an action is safe wherever a number of operations was created. -/
def Safe (n : Nat) (x : Action α) : Prop :=
  ∀ p : Program, p.Orderly → n ≤ p.slots.size → SafeAt p x

/-! ### Actions that look -/

/-- An action with a given outcome is safe when the outcome is. -/
theorem safeAt_of_run {x : Action α} {a : Except StageError α} {q : Program}
    (h : runOn x p = (a, q)) (hq : q.Orderly) (hsize : p.slots.size ≤ q.slots.size)
    (hmirrors : p.Complete → q.Complete ∧ p.Mirrors q) : SafeAt p x := by
  constructor <;> rw [h]
  exacts [hq, hsize, hmirrors]

/-- An action that edits nothing is safe. -/
theorem safeAt_of_eq {x : Action α} (hp : p.Orderly) (h : (runOn x p).2 = p) : SafeAt p x := by
  have hrun : runOn x p = ((runOn x p).1, p) := Prod.ext rfl h
  exact safeAt_of_run hrun hp (Nat.le_refl _) fun hcomplete => ⟨hcomplete, .refl⟩

/-- What a safe action leaves when it succeeds is orderly, and has all operations of before. -/
theorem SafeAt.of_ok {x : Action α} {a : α} {q : Program} (hx : SafeAt p x)
    (h : runOn x p = (.ok a, q)) : q.Orderly ∧ p.slots.size ≤ q.slots.size := by
  obtain ⟨hq, hsize, -⟩ := hx
  rw [h] at hq hsize
  exact ⟨hq, hsize⟩

/-- An action that only gives a result is safe. -/
theorem safe_pure (a : α) : Safe n (pure a : Action α) :=
  fun _ hp _ => safeAt_of_eq hp rfl

/-- Giving up is safe. -/
theorem safe_throw (e : StageError) : Safe n (throw e : Action α) :=
  fun _ hp _ => safeAt_of_eq hp rfl

/-- Nothing runs behind an action that gives up. -/
theorem safe_throw_bind (e : StageError) (f : α → Action β) :
    Safe n ((throw e : Action α) >>= f) :=
  fun _ hp _ => safeAt_of_eq hp rfl

/-- Reading the program is safe. -/
theorem safe_get : Safe n (get : Action Program) :=
  fun _ hp _ => safeAt_of_eq hp rfl

/-- An optional value is safe. -/
theorem safe_orFail (x : Option α) (e : StageError) : Safe n (orFail x e) :=
  fun _ hp _ => safeAt_of_eq hp (by cases x <;> rfl)

/-- A condition is safe. -/
theorem safe_ensure (condition : Bool) (e : StageError) : Safe n (ensure condition e) :=
  fun _ hp _ => safeAt_of_eq hp (by cases condition <;> rfl)

/-- An action is as safe as another one with the same run. -/
theorem SafeAt.congr {x y : Action α} (hx : SafeAt p x) (h : runOn y p = runOn x p) :
    SafeAt p y :=
  safeAt_of_run h hx.orderly hx.size hx.mirrors

/-! ### Actions one after the other -/

/-- A second action runs only on what a first one has left safely. -/
theorem SafeAt.bind {x : Action α} {f : α → Action β} (hx : SafeAt p x)
    (hf : ∀ a q, runOn x p = (.ok a, q) → q.Orderly → p.slots.size ≤ q.slots.size →
      SafeAt q (f a)) : SafeAt p (x >>= f) := by
  obtain ⟨hq, hsize, hmirrors⟩ := hx
  rcases h : runOn x p with ⟨e | a, q⟩ <;> rw [h] at hq hsize hmirrors
  · refine safeAt_of_run (q := q) (a := .error e) ?_ hq hsize hmirrors
    rw [runOn_bind, h]
  · obtain ⟨hr, hsize', hmirrors'⟩ := hf a q h hq hsize
    refine safeAt_of_run (q := (runOn (f a) q).2) (a := (runOn (f a) q).1) ?_ hr
      (Nat.le_trans hsize hsize') fun hcomplete => ?_
    · rw [runOn_bind, h]
    · obtain ⟨hcq, hpq⟩ := hmirrors hcomplete
      obtain ⟨hcr, hqr⟩ := hmirrors' hcq
      exact ⟨hcr, hpq.trans hqr⟩

/-- Safe actions may follow each other. -/
theorem Safe.bind {x : Action α} {f : α → Action β} (hx : Safe n x) (hf : ∀ a, Safe n (f a)) :
    Safe n (x >>= f) := fun p hp hn =>
  (hx p hp hn).bind fun a q _ hq hsize => hf a q hq (Nat.le_trans hn hsize)

/-- An action that starts by looking at the program may use what it sees there. -/
theorem SafeAt.get_bind {f : Program → Action β} (hp : p.Orderly) (hf : SafeAt p (f p)) :
    SafeAt p (get >>= f) :=
  (safe_get p hp (Nat.zero_le _)).bind fun _ _ h _ _ => by
    cases h
    exact hf

/-- Reading the program is safe when what is done with it is. -/
theorem Safe.get_bind {f : Program → Action β}
    (hf : ∀ p : Program, p.Orderly → n ≤ p.slots.size → Safe p.slots.size (f p)) :
    Safe n (get >>= f) := fun p hp hn => .get_bind hp (hf p hp hn p hp (Nat.le_refl _))

/-- A fold is safe when its rounds are. -/
theorem Safe.foldlM {f : α → β → Action α} {l : List β} (hf : ∀ b ∈ l, ∀ a, Safe n (f a b))
    (a : α) : Safe n (l.foldlM f a) := by
  induction l generalizing a with
  | nil => exact safe_pure a
  | cons b l ih =>
      rw [List.foldlM_cons]
      exact (hf b List.mem_cons_self a).bind fun a' => ih (fun c hc => hf c (.tail _ hc)) a'

/-- A loop is safe when its rounds are. -/
theorem Safe.forM {f : β → Action Unit} {l : List β} (hf : ∀ b ∈ l, Safe n (f b)) :
    Safe n (l.forM f) := by
  induction l with
  | nil => exact safe_pure ()
  | cons b l ih =>
      show Safe n (f b >>= fun _ => l.forM f)
      exact (hf b List.mem_cons_self).bind fun _ => ih fun c hc => hf c (.tail _ hc)

/-- A traversal is safe when its rounds are. -/
theorem Safe.mapM {f : β → Action α} {l : List β} (hf : ∀ b ∈ l, Safe n (f b)) :
    Safe n (l.mapM f) := by
  induction l with
  | nil => exact safe_pure []
  | cons b l ih =>
      rw [List.mapM_cons]
      exact (hf b List.mem_cons_self).bind fun c =>
        (ih fun d hd => hf d (.tail _ hd)).bind fun cs => safe_pure (c :: cs)

/-! ### Actions that return an operation -/

/-- Whether an action is safe and returns an operation that was created when it succeeds. -/
def Yields (n : Nat) (x : Action OpId) : Prop :=
  Safe n x ∧ ∀ p a q, p.Orderly → n ≤ p.slots.size → runOn x p = (.ok a, q) → a < q.slots.size

/-- An operation that was created may be returned. -/
theorem yields_pure {a : OpId} (ha : a < n) : Yields n (pure a) :=
  ⟨safe_pure a, fun p b q _ hn h => by
    obtain ⟨rfl, rfl⟩ := pure_ok.1 h
    exact Nat.lt_of_lt_of_le ha hn⟩

/-- What runs behind an action may work on the operation that it returns. -/
theorem Yields.bind {x : Action OpId} {f : OpId → Action β} (hx : Yields n x)
    (hf : ∀ m a, n ≤ m → a < m → Safe m (f a)) : Safe n (x >>= f) := fun p hp hn =>
  (hx.1 p hp hn).bind fun a q h hq hsize =>
    hf _ a (Nat.le_trans hn hsize) (hx.2 p a q hp hn h) q hq (Nat.le_refl _)

/-- What returns an operation may work on one that was returned before. -/
theorem Yields.bind_yields {x : Action OpId} {f : OpId → Action OpId} (hx : Yields n x)
    (hf : ∀ m a, n ≤ m → a < m → Yields m (f a)) : Yields n (x >>= f) := by
  refine ⟨hx.bind fun m a hm ha => (hf m a hm ha).1, fun p b r hp hn h => ?_⟩
  obtain ⟨a, q, hrun, h⟩ := bind_ok.1 h
  obtain ⟨hq, hsize⟩ := (hx.1 p hp hn).of_ok hrun
  exact (hf _ a (Nat.le_trans hn hsize) (hx.2 p a q hp hn hrun)).2 q b r hq (Nat.le_refl _) h

/-- What returns an operation may run behind a safe action. -/
theorem Safe.bind_yields {x : Action α} {f : α → Action OpId} (hx : Safe n x)
    (hf : ∀ a, Yields n (f a)) : Yields n (x >>= f) := by
  refine ⟨hx.bind fun a => (hf a).1, fun p b r hp hn h => ?_⟩
  obtain ⟨a, q, hrun, h⟩ := bind_ok.1 h
  obtain ⟨hq, hsize⟩ := (hx p hp hn).of_ok hrun
  exact (hf a).2 q b r hq (Nat.le_trans hn hsize) h

/-- What returns an operation may look at the program. -/
theorem Yields.get_bind {f : Program → Action OpId}
    (hf : ∀ p : Program, p.Orderly → n ≤ p.slots.size → Yields p.slots.size (f p)) :
    Yields n (get >>= f) :=
  ⟨.get_bind fun p hp hn => (hf p hp hn).1, fun p a q hp hn h =>
    (hf p hp hn).2 p a q hp (Nat.le_refl _) (get_bind_ok.1 h)⟩

/-! ### What holds when an action succeeds -/

/-- Whether an action is safe, and leaves a program with a property when it succeeds. -/
def Ensures (p : Program) (x : Action α) (Q : Program → Prop) : Prop :=
  SafeAt p x ∧ ∀ a q, runOn x p = (.ok a, q) → Q q

/-- An action ensures what is weaker. -/
theorem Ensures.mono {x : Action α} {Q R : Program → Prop} (hx : Ensures p x Q)
    (h : ∀ q, Q q → R q) : Ensures p x R :=
  ⟨hx.1, fun a q hrun => h q (hx.2 a q hrun)⟩

/-- Reading the program ensures what is ensured by what is done with it. -/
theorem Ensures.get_bind {f : Program → Action β} {Q : Program → Prop} (hp : p.Orderly)
    (hf : Ensures p (f p) Q) : Ensures p (get >>= f) Q :=
  ⟨.get_bind hp hf.1, fun a q hrun => hf.2 a q (get_bind_ok.1 hrun)⟩

/-- Actions may follow each other, where the second starts from what the first ensures. -/
theorem Ensures.bind {x : Action α} {f : α → Action β} {Q R : Program → Prop}
    (hx : Ensures p x Q) (hf : ∀ a q, runOn x p = (.ok a, q) → q.Orderly →
      p.slots.size ≤ q.slots.size → Q q → Ensures q (f a) R) : Ensures p (x >>= f) R := by
  refine ⟨hx.1.bind fun a q h hq hsize => (hf a q h hq hsize (hx.2 a q h)).1, fun b r h => ?_⟩
  obtain ⟨a, q, hrun, h⟩ := bind_ok.1 h
  obtain ⟨hq, hsize⟩ := hx.1.of_ok hrun
  exact (hf a q hrun hq hsize (hx.2 a q hrun)).2 b r h

/-- A loop is safe when its rounds are, as far as a property of what is left to do tells, which the
rounds hand on. -/
theorem Ensures.foldlM {f : α → β → Action α} {I : List β → Program → Prop} {l : List β} {a : α}
    (hp : p.Orderly) (start : I l p)
    (step : ∀ b rest a q, I (b :: rest) q → q.Orderly → Ensures q (f a b) (I rest)) :
    Ensures p (l.foldlM f a) (I []) := by
  induction l generalizing p a with
  | nil =>
      refine ⟨safe_pure a p hp (Nat.zero_le _), fun b q h => ?_⟩
      obtain ⟨-, rfl⟩ := foldlM_nil_ok.1 h
      exact start
  | cons b l ih =>
      rw [List.foldlM_cons]
      exact (step b l a p start hp).bind fun a' q _ hq _ hI => ih hq hI

/-- A loop keeps an invariant that speaks of the rounds to come. -/
theorem Ensures.forM {f : β → Action Unit} {I : List β → Program → Prop} {l : List β}
    (hp : p.Orderly) (start : I l p)
    (step : ∀ b rest q, I (b :: rest) q → q.Orderly → Ensures q (f b) (I rest)) :
    Ensures p (l.forM f) (I []) := by
  induction l generalizing p with
  | nil =>
      refine ⟨safe_pure () p hp (Nat.zero_le _), fun _ q h => ?_⟩
      obtain rfl := forM_nil_ok.1 h
      exact start
  | cons b l ih =>
      show Ensures p (f b >>= fun _ => l.forM f) (I [])
      exact (step b l p start hp).bind fun _ q _ hq _ hI => ih hq hI

/-! ### Edits -/

/-- A change of an operation that keeps its result and its region is safe. -/
theorem safe_update (id : OpId) {f : Operation → Operation}
    (hf : ∀ op, (f op).result = op.result ∧ (f op).hasRegion = op.hasRegion) :
    Safe n (update id f) := fun p hp _ =>
  safeAt_of_run (runOn_update id f p) (hp.modify id fun op => (hf op).1)
    (Nat.le_of_eq (Program.size_modify p id f).symm) fun hcomplete =>
    ⟨hcomplete.modify id fun op => (hf op).2,
      Program.Complete.mirrors_modify id fun op => (hf op).2⟩

/-- The erasure of an operation that was created is safe. -/
theorem safe_erase {id : OpId} (hid : id < n) : Safe n (erase id) := fun p hp hn =>
  have hlt := Nat.lt_of_lt_of_le hid hn
  safeAt_of_run (runOn_erase id p) (hp.erase hlt) (Nat.le_of_eq (Program.size_erase p id).symm)
    fun hcomplete => ⟨hcomplete.erase hlt, hcomplete.mirrors_erase hlt⟩

/-- A new operation may define a value that the body does not define yet. -/
theorem safeAt_insert {x : Action OpId} {op : Operation} {q : Program}
    (hx : ∃ parent i, q = (p.insertAt parent i op).2)
    (hrun : runOn x p = (.ok p.slots.size, q)) (hp : p.Orderly)
    (hfresh : ∀ v, op.result = some v → v ∉ p.definedValues)
    (hmirrors : p.Complete → q.Complete ∧ p.Mirrors q) : SafeAt p x := by
  obtain ⟨parent, i, rfl⟩ := hx
  refine safeAt_of_run hrun (hp.insertAt parent i hfresh) ?_ hmirrors
  rw [Program.size_insertAt]
  exact Nat.le_succ _

/-- The creation of an operation with a fresh result before another is safe. -/
theorem safeAt_insertBefore {anchor : OpId} {op : Operation} (hanchor : anchor < p.slots.size)
    (hp : p.Orderly) (hfresh : ∀ v, op.result = some v → v ∉ p.definedValues) :
    SafeAt p (insertBefore anchor op) := by
  obtain ⟨parent, i, hinsert⟩ := Program.insertBefore_eq p anchor op
  refine safeAt_insert ⟨parent, i, rfl⟩ ?_ hp hfresh fun hcomplete => ?_
  · rw [runOn_insertBefore, hinsert]
    rfl
  · rw [← hinsert]
    exact ⟨hcomplete.insertBefore hanchor op, hcomplete.mirrors_insertBefore hanchor op⟩

/-- An operation that was created is a place. -/
theorem isPlace_of_lt {parent : OpId} (hcomplete : p.Complete) (h : parent < p.slots.size) :
    p.IsPlace (some parent) :=
  hcomplete.isPlace fun a ha => by
    cases ha
    exact h

/-- The creation of an operation with a fresh result in front of what is below another is safe. -/
theorem safeAt_prepend {parent : OpId} {op : Operation} (hparent : parent < p.slots.size)
    (hp : p.Orderly) (hfresh : ∀ v, op.result = some v → v ∉ p.definedValues) :
    SafeAt p (prepend parent op) :=
  safeAt_insert ⟨some parent, 0, rfl⟩ rfl hp hfresh fun hcomplete =>
    have hplace := isPlace_of_lt hcomplete hparent
    ⟨hcomplete.insertAt hplace (Nat.zero_le _) op,
      hcomplete.mirrors_insertAt hplace (Nat.zero_le _) op⟩

/-- The creation of an operation without a result before another is safe, and returns it. -/
theorem yields_insertBefore {anchor : OpId} {op : Operation} (hanchor : anchor < n)
    (h : op.result = none) : Yields n (insertBefore anchor op) := by
  refine ⟨fun p hp hn => safeAt_insertBefore (Nat.lt_of_lt_of_le hanchor hn) hp
    (Program.fresh_of_none h), fun p a q _ _ hrun => ?_⟩
  obtain ⟨parent, i, hinsert⟩ := Program.insertBefore_eq p anchor op
  rw [runOn_insertBefore, hinsert] at hrun
  cases hrun
  rw [Program.size_insertAt]
  exact Nat.lt_succ_self _

/-- The creation of an operation without a result below another is safe, and returns it. -/
theorem yields_append {parent : OpId} {op : Operation} (hparent : parent < n)
    (h : op.result = none) : Yields n (append parent op) := by
  refine ⟨fun p hp hn => safeAt_insert ⟨some parent, _, rfl⟩ rfl hp (Program.fresh_of_none h)
    fun hcomplete => ?_, fun p a q _ _ hrun => ?_⟩
  · have hplace := isPlace_of_lt hcomplete (Nat.lt_of_lt_of_le hparent hn)
    exact ⟨hcomplete.append hplace op, hcomplete.mirrors_append hplace op⟩
  · cases hrun
    exact Nat.lt_of_lt_of_eq (Nat.lt_succ_self _) (Program.size_insertAt p (some parent) _ op).symm

/-- The creation of an operation without a result before another is safe. -/
theorem safe_insertBefore {anchor : OpId} {op : Operation} (hanchor : anchor < n)
    (h : op.result = none) : Safe n (insertBefore anchor op) :=
  (yields_insertBefore hanchor h).1

/-- The creation of an operation without a result below another is safe. -/
theorem safe_append {parent : OpId} {op : Operation} (hparent : parent < n)
    (h : op.result = none) : Safe n (append parent op) :=
  (yields_append hparent h).1

/-- Operations of the body are moved below one at the top, which stays there. -/
theorem safeAt_moveAll {l : List OpId} {a : OpId} (hp : p.Orderly) (ha : a ∈ p.body.roots)
    (hl : ∀ id ∈ l, id ∈ p.walk ∧ id ≠ a) : SafeAt p (l.forM fun id => moveTo id a) := by
  refine (Ensures.forM (I := fun rest q => a ∈ q.body.roots ∧ ∀ id ∈ rest, id ∈ q.walk ∧ id ≠ a)
    hp ⟨ha, hl⟩ fun id rest q hI hq => ?_).1
  obtain ⟨hroot, hrest⟩ := hI
  obtain ⟨hid, hne⟩ := hrest id List.mem_cons_self
  obtain ⟨hroot', hwalk⟩ := hq.tree.moveTo_root hroot hid hne
  have hawalk := Program.mem_walk_of_mem_roots hroot
  have hapart := hq.tree.root_notMem_interval hroot hid hne
  have hidlt := hq.sound.created id hid
  refine ⟨safeAt_of_run rfl (hq.moveTo hid hawalk hapart)
    (Nat.le_of_eq (Program.size_moveTo q id a).symm) fun hcomplete => ?_, ?_⟩
  · have hadmits : q.Admits id (some a) := fun b hb => by
      cases hb
      rw [Program.interval, List.mem_cons, not_or] at hapart
      exact ⟨Program.mem_whole_of_mem_walk hawalk, hapart⟩
    exact ⟨hcomplete.moveTo hidlt hadmits, hcomplete.mirrors_moveTo hidlt hadmits⟩
  rintro _ _ ⟨⟩
  refine ⟨hroot', fun j hj => ?_⟩
  have hj' := hrest j (List.mem_cons_of_mem _ hj)
  exact ⟨(hwalk j).2 hj'.1, hj'.2⟩

end Action

end TileFlow
