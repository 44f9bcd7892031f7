import Mathlib.Data.List.Flatten
import Mathlib.Data.List.Nodup
import TileFlow.Stage.Action
import TileFlow.Proofs.Program.Edit

/-!
# Runs of actions

What it means for an action to succeed, for each way in which actions are put together: a
successful run of the whole is made of successful runs of the parts.

Most stages visit operations one after the other, and change each of them in place or erase it
with all below it. A loop of the first kind keeps the body, and a loop of the second kind prunes
it, at any depth or at the top only.

## Main results

* `Action.bind_ok`, `Action.orFail_ok`, `Action.ensure_ok`: runs of the parts.
* `Action.forM_cons_ok`, `Action.foldlM_cons_ok`: runs of loops.
* `Action.foldlM_induction`, `Action.foldlM_prefix`: what a loop keeps, and what it gets done.
* `Action.forM_split`: one round of a loop, and the others.
* `Action.forM_exists_iff`: when a loop gets through.
* `Action.FailsOnly`: the errors with which an action gives up.
* `Program.Edited`: a program whose operations were changed in place.
* `Action.forM_edited`: a loop that changes operations.
* `Program.Pruned`: a program without some of its trees.
* `Action.forM_pruned`: a loop that erases operations.
* `Program.PrunedTop`: a program without some of the trees at its top.
* `Action.foldlM_prunedTop`: a loop that erases operations at the top.
-/

/-! ## Parts -/

namespace TileFlow.Action

variable {α β γ : Type} {p q : Program}

@[simp] theorem runOn_pure (a : α) (p : Program) : runOn (pure a) p = (.ok a, p) := rfl

@[simp] theorem runOn_get (p : Program) : runOn (get : Action Program) p = (.ok p, p) := rfl

@[simp] theorem runOn_modify (f : Program → Program) (p : Program) :
    runOn (modify f : Action Unit) p = (.ok (), f p) := rfl

@[simp] theorem runOn_modifyGet (f : Program → α × Program) (p : Program) :
    runOn (modifyGet f : Action α) p = (.ok (f p).1, (f p).2) := rfl

@[simp] theorem runOn_throw (e : StageError) (p : Program) :
    runOn (throw e : Action α) p = (.error e, p) := rfl

/-- The first part of a run decides whether there is a second one. -/
theorem runOn_bind (x : Action α) (f : α → Action β) (p : Program) :
    runOn (x >>= f) p =
      match runOn x p with
      | (.ok a, q) => runOn (f a) q
      | (.error e, q) => (.error e, q) := by
  show Id.run (StateT.run (ExceptT.run (x >>= f)) p) = _
  rcases h : runOn x p with ⟨r, q⟩
  have hx : Id.run (StateT.run (ExceptT.run x) p) = (r, q) := h
  cases r with
  | ok a =>
      simp only [ExceptT.run_bind, StateT.run_bind, Id.run_bind, hx]
      rfl
  | error e =>
      simp only [ExceptT.run_bind, StateT.run_bind, Id.run_bind, hx]
      rfl

/-- A successful run of two actions is one of the first and then one of the second. -/
theorem bind_ok {x : Action α} {f : α → Action β} {b : β} :
    runOn (x >>= f) p = (.ok b, q) ↔
      ∃ a r, runOn x p = (.ok a, r) ∧ runOn (f a) r = (.ok b, q) := by
  rw [runOn_bind]
  rcases runOn x p with ⟨e | a, r⟩
  · simp
  · simp only [Prod.mk.injEq, Except.ok.injEq]
    exact ⟨fun h => ⟨a, r, ⟨rfl, rfl⟩, h⟩, by rintro ⟨_, _, ⟨rfl, rfl⟩, h⟩; exact h⟩

/-- An action that only gives a result succeeds with it, and edits nothing. -/
theorem pure_ok {a b : α} : runOn (pure a : Action α) p = (.ok b, q) ↔ a = b ∧ p = q := by
  simp

/-- An action that starts by looking at the program runs on that program. -/
theorem get_bind_ok {f : Program → Action β} {b : β} :
    runOn (get >>= f) p = (.ok b, q) ↔ runOn (f p) p = (.ok b, q) := by
  rw [bind_ok]
  exact ⟨by rintro ⟨_, _, hget, h⟩; cases hget; exact h, fun h => ⟨p, p, rfl, h⟩⟩

/-- An optional value succeeds when it is there, and edits nothing. -/
theorem orFail_ok {x : Option α} {e : StageError} {a : α} :
    runOn (orFail x e) p = (.ok a, q) ↔ x = some a ∧ p = q := by
  cases x <;> simp [orFail]

/-- A condition succeeds when it holds, and edits nothing. -/
theorem ensure_ok {condition : Bool} {e : StageError} :
    runOn (ensure condition e) p = (.ok (), q) ↔ condition = true ∧ p = q := by
  cases condition <;> simp [ensure]

/-- An action that starts with an optional value runs on when there is one. -/
theorem orFail_bind_ok {x : Option α} {e : StageError} {f : α → Action β} {b : β} :
    runOn (orFail x e >>= f) p = (.ok b, q) ↔ ∃ a, x = some a ∧ runOn (f a) p = (.ok b, q) := by
  rw [bind_ok]
  constructor
  · rintro ⟨a, r, hrun, h⟩
    obtain ⟨hx, rfl⟩ := orFail_ok.1 hrun
    exact ⟨a, hx, h⟩
  · rintro ⟨a, hx, h⟩
    exact ⟨a, p, orFail_ok.2 ⟨hx, rfl⟩, h⟩

/-- An action that starts with a check runs on when it passes. -/
theorem ensure_bind_ok {condition : Bool} {e : StageError} {f : Unit → Action β} {b : β} :
    runOn (ensure condition e >>= f) p = (.ok b, q) ↔
      condition = true ∧ runOn (f ()) p = (.ok b, q) := by
  rw [bind_ok]
  constructor
  · rintro ⟨_, r, hrun, h⟩
    obtain ⟨hc, rfl⟩ := ensure_ok.1 hrun
    exact ⟨hc, h⟩
  · rintro ⟨hc, h⟩
    exact ⟨(), p, ensure_ok.2 ⟨hc, rfl⟩, h⟩

@[simp] theorem runOn_update (id : OpId) (f : Operation → Operation) (p : Program) :
    runOn (update id f) p = (.ok (), p.modify id f) := rfl

@[simp] theorem runOn_erase (id : OpId) (p : Program) :
    runOn (erase id) p = (.ok (), p.erase id) := rfl

@[simp] theorem runOn_moveTo (id parent : OpId) (p : Program) :
    runOn (moveTo id parent) p = (.ok (), p.moveTo id (some parent)) := rfl

@[simp] theorem runOn_insertBefore (anchor : OpId) (op : Operation) (p : Program) :
    runOn (insertBefore anchor op) p =
      (.ok (p.insertBefore anchor op).1, (p.insertBefore anchor op).2) := rfl

@[simp] theorem runOn_append (parent : OpId) (op : Operation) (p : Program) :
    runOn (append parent op) p =
      (.ok (p.append (some parent) op).1, (p.append (some parent) op).2) := rfl

@[simp] theorem runOn_prepend (parent : OpId) (op : Operation) (p : Program) :
    runOn (prepend parent op) p =
      (.ok (p.insertAt (some parent) 0 op).1, (p.insertAt (some parent) 0 op).2) := rfl

/-! ### Loops -/

/-- A loop over nothing edits nothing. -/
theorem forM_nil_ok {f : β → Action Unit} :
    runOn (([] : List β).forM f) p = (.ok (), q) ↔ p = q := by
  show runOn (pure ()) p = _ ↔ _
  simp

/-- A loop succeeds when its first round does, and then the others. -/
theorem forM_cons_ok {f : β → Action Unit} {b : β} {l : List β} :
    runOn ((b :: l).forM f) p = (.ok (), q) ↔
      ∃ r, runOn (f b) p = (.ok (), r) ∧ runOn (l.forM f) r = (.ok (), q) := by
  show runOn (f b >>= fun _ => l.forM f) p = _ ↔ _
  rw [bind_ok]
  exact ⟨fun ⟨_, r, h, h'⟩ => ⟨r, h, h'⟩, fun ⟨r, h, h'⟩ => ⟨(), r, h, h'⟩⟩

/-- A loop over two parts of a list is a loop over each of them. -/
theorem forM_append_ok {f : β → Action Unit} {l l' : List β} :
    runOn ((l ++ l').forM f) p = (.ok (), q) ↔
      ∃ r, runOn (l.forM f) p = (.ok (), r) ∧ runOn (l'.forM f) r = (.ok (), q) := by
  rw [List.forM_eq_forM, List.forM_append, bind_ok]
  exact ⟨fun ⟨_, r, h, h'⟩ => ⟨r, h, h'⟩, fun ⟨r, h, h'⟩ => ⟨(), r, h, h'⟩⟩

/-- A fold over nothing gives what it starts with, and edits nothing. -/
theorem foldlM_nil_ok {f : α → β → Action α} {a b : α} :
    runOn (([] : List β).foldlM f a) p = (.ok b, q) ↔ a = b ∧ p = q := by
  show runOn (pure a) p = _ ↔ _
  simp

/-- A fold succeeds when its first round does, and then the others from its result. -/
theorem foldlM_cons_ok {f : α → β → Action α} {a c : α} {b : β} {l : List β} :
    runOn ((b :: l).foldlM f a) p = (.ok c, q) ↔
      ∃ a' r, runOn (f a b) p = (.ok a', r) ∧ runOn (l.foldlM f a') r = (.ok c, q) := by
  rw [List.foldlM_cons, bind_ok]

/-- A loop that reads one thing after the other without changing the program has read each of
them. -/
theorem mapM_ok {f : β → Action γ} (read : Program → β → Option γ) {l : List β} {cs : List γ}
    (hf : ∀ b c r s, runOn (f b) r = (.ok c, s) → read r b = some c ∧ r = s)
    (h : runOn (l.mapM f) p = (.ok cs, q)) : p = q ∧ l.map (read p) = cs.map some := by
  induction l generalizing cs with
  | nil =>
      rw [List.mapM_nil, pure_ok] at h
      obtain ⟨rfl, rfl⟩ := h
      exact ⟨rfl, rfl⟩
  | cons b l ih =>
      rw [List.mapM_cons] at h
      obtain ⟨c, r, hc, h⟩ := bind_ok.1 h
      obtain ⟨hread, rfl⟩ := hf b c p r hc
      obtain ⟨cs', s, hcs, h⟩ := bind_ok.1 h
      obtain ⟨rfl, rfl⟩ := pure_ok.1 h
      obtain ⟨rfl, hall⟩ := ih hcs
      exact ⟨rfl, by rw [List.map_cons, hread, hall, List.map_cons]⟩

/-- A loop without an intermediate result is one with a trivial one. -/
theorem forM_eq_foldlM (f : β → Action Unit) (l : List β) :
    l.forM f = l.foldlM (fun _ => f) () := by
  induction l with
  | nil => rfl
  | cons b l ih =>
      rw [List.foldlM_cons]
      show (f b >>= fun _ => l.forM f) = _
      rw [ih]

/-- A loop is a fold that carries nothing along. -/
theorem forM_eq_ok_iff_foldlM {f : β → Action Unit} {l : List β} :
    runOn (l.forM f) p = (.ok (), q) ↔ runOn (l.foldlM (fun _ => f) ()) p = (.ok (), q) := by
  rw [forM_eq_foldlM]

/-- A loop over different items is done with all of them when each of its rounds is done with one
more. -/
theorem foldlM_prefix {f : α → β → Action α} {l : List β} {a b : α}
    {I : List β → α → Program → Prop} (hl : l.Nodup) (h : runOn (l.foldlM f a) p = (.ok b, q))
    (start : I [] a p)
    (step : ∀ c ∈ l, ∀ done, c ∉ done → ∀ a a' r s, I done a r → runOn (f a c) r = (.ok a', s) →
      I (done ++ [c]) a' s) : I l b q := by
  have hrun : ∀ (rest done : List β) (a : α) (p : Program), l = done ++ rest → I done a p →
      runOn (rest.foldlM f a) p = (.ok b, q) → I l b q := by
    intro rest
    induction rest with
    | nil =>
        intro done a p hsplit hdone h
        obtain ⟨rfl, rfl⟩ := foldlM_nil_ok.1 h
        rwa [hsplit, List.append_nil]
    | cons c rest ih =>
        intro done a p hsplit hdone h
        obtain ⟨a', r, hc, h⟩ := foldlM_cons_ok.1 h
        have hfresh : c ∉ done := by
          intro hmem
          rw [hsplit, List.nodup_append] at hl
          exact hl.2.2 c hmem c List.mem_cons_self rfl
        exact ih (done ++ [c]) a' r (by simp [hsplit])
          (step c (by simp [hsplit]) done hfresh a a' p r hdone hc) h
  exact hrun l [] a p rfl start h

/-- An invariant that speaks of the rounds done so far, each of them new, holds of all rounds at the
end. -/
theorem forM_prefix {f : β → Action Unit} {l : List β} {I : List β → Program → Prop} (hl : l.Nodup)
    (h : runOn (l.forM f) p = (.ok (), q)) (start : I [] p)
    (step : ∀ c ∈ l, ∀ done, c ∉ done → ∀ r s, I done r → runOn (f c) r = (.ok (), s) →
      I (done ++ [c]) s) : I l q :=
  foldlM_prefix (I := fun done _ r => I done r) hl (forM_eq_ok_iff_foldlM.1 h) start
    fun c hc done hfresh _ _ r s => step c hc done hfresh r s

/-- A loop with an intermediate result whose rounds keep a property keeps it. -/
theorem foldlM_induction {f : α → β → Action α} {l : List β} {a b : α} {I : Program → Prop}
    (h : runOn (l.foldlM f a) p = (.ok b, q)) (hp : I p)
    (step : ∀ c ∈ l, ∀ a a' r s, I r → runOn (f a c) r = (.ok a', s) → I s) : I q := by
  induction l generalizing p a with
  | nil => exact (foldlM_nil_ok.1 h).2 ▸ hp
  | cons c l ih =>
      obtain ⟨a', r, hc, hl⟩ := foldlM_cons_ok.1 h
      exact ih hl (step c List.mem_cons_self a a' p r hp hc)
        fun d hd => step d (List.mem_cons_of_mem _ hd)

/-- A loop whose rounds keep a property keeps it. -/
theorem forM_induction {f : β → Action Unit} {l : List β} {I : Program → Prop}
    (h : runOn (l.forM f) p = (.ok (), q)) (hp : I p)
    (step : ∀ b ∈ l, ∀ r s, I r → runOn (f b) r = (.ok (), s) → I s) : I q :=
  foldlM_induction (forM_eq_ok_iff_foldlM.1 h) hp fun b hb _ _ r s => step b hb r s

/-- A loop has rounds before one of them, that one, and rounds after it. -/
theorem forM_split {f : β → Action Unit} {l : List β} {b : β} (hl : l.Nodup) (hb : b ∈ l)
    (h : runOn (l.forM f) p = (.ok (), q)) :
    ∃ (l₁ l₂ : List β) (r s : Program), (∀ c ∈ l₁ ++ l₂, c ∈ l ∧ c ≠ b) ∧
      runOn (l₁.forM f) p = (.ok (), r) ∧ runOn (f b) r = (.ok (), s) ∧
      runOn (l₂.forM f) s = (.ok (), q) := by
  obtain ⟨l₁, l₂, rfl⟩ := List.append_of_mem hb
  obtain ⟨r, hbefore, hrun⟩ := forM_append_ok.1 h
  obtain ⟨s, hown, hafter⟩ := forM_cons_ok.1 hrun
  refine ⟨l₁, l₂, r, s, fun c hc => ⟨?_, fun heq => ?_⟩, hbefore, hown, hafter⟩
  · exact List.mem_append.2 ((List.mem_append.1 hc).imp_right (List.mem_cons_of_mem _))
  · exact (List.nodup_cons.1 (List.nodup_middle.1 hl)).1 (heq ▸ hc)

/-- A loop whose rounds keep a property, and reach targets that no later round loses, reaches the
targets of all its rounds. -/
theorem forM_reaches {f : β → Action Unit} {l : List β} {I : Program → Prop}
    {D : γ → Program → Prop} {T : β → γ → Prop} (h : runOn (l.forM f) p = (.ok (), q)) (hp : I p)
    (step : ∀ b ∈ l, ∀ r s, I r → runOn (f b) r = (.ok (), s) →
      I s ∧ (∀ c, D c r → D c s) ∧ ∀ c, T b c → D c s) :
    I q ∧ (∀ c, D c p → D c q) ∧ ∀ b ∈ l, ∀ c, T b c → D c q := by
  induction l generalizing p with
  | nil =>
      obtain rfl := forM_nil_ok.1 h
      exact ⟨hp, fun _ hc => hc, fun _ hb => nomatch hb⟩
  | cons b l ih =>
      obtain ⟨r, hb, hl⟩ := forM_cons_ok.1 h
      obtain ⟨hr, hold, hnew⟩ := step b List.mem_cons_self p r hp hb
      obtain ⟨hq, hkeep, hrest⟩ := ih hl hr fun c hc => step c (List.mem_cons_of_mem _ hc)
      refine ⟨hq, fun c hc => hkeep c (hold c hc), fun a ha c hT => ?_⟩
      rcases List.mem_cons.1 ha with rfl | ha
      · exact hkeep c (hnew c hT)
      · exact hrest a ha c hT

/-- A loop gets through when each of its rounds does after those before it. -/
theorem foldlM_exists {f : α → β → Action α} {l : List β} {a : α}
    {I : List β → α → Program → Prop} (start : I [] a p)
    (step : ∀ done c rest, l = done ++ c :: rest → ∀ a r, I done a r →
      ∃ a' s, runOn (f a c) r = (.ok a', s) ∧ I (done ++ [c]) a' s) :
    ∃ b q, runOn (l.foldlM f a) p = (.ok b, q) ∧ I l b q := by
  have hrun : ∀ (rest done : List β) (a : α) (r : Program), l = done ++ rest → I done a r →
      ∃ b q, runOn (rest.foldlM f a) r = (.ok b, q) ∧ I l b q := by
    intro rest
    induction rest with
    | nil =>
        intro done a r hsplit hdone
        exact ⟨a, r, foldlM_nil_ok.2 ⟨rfl, rfl⟩, by rwa [hsplit, List.append_nil]⟩
    | cons c rest ih =>
        intro done a r hsplit hdone
        obtain ⟨a', s, hc, hnext⟩ := step done c rest hsplit a r hdone
        obtain ⟨b, q, hrest, hall⟩ := ih (done ++ [c]) a' s (by simp [hsplit]) hnext
        exact ⟨b, q, foldlM_cons_ok.2 ⟨a', s, hc, hrest⟩, hall⟩
  exact hrun l [] a p rfl start

/-- A loop gets through exactly when each of its rounds can, if what a round needs does not depend
on the rounds before it. -/
theorem forM_exists_iff {f : β → Action Unit} {l : List β} {I : Program → Prop} {C : β → Prop}
    (hp : I p) (step : ∀ b ∈ l, ∀ r, I r → ((∃ s, runOn (f b) r = (.ok (), s)) ↔ C b))
    (keep : ∀ b ∈ l, ∀ r s, I r → runOn (f b) r = (.ok (), s) → I s) :
    (∃ q, runOn (l.forM f) p = (.ok (), q)) ↔ ∀ b ∈ l, C b := by
  induction l generalizing p with
  | nil => exact iff_of_true ⟨p, forM_nil_ok.2 rfl⟩ fun _ hb => absurd hb List.not_mem_nil
  | cons b l ih =>
      rw [List.forall_mem_cons, ← step b List.mem_cons_self p hp]
      have hrest : ∀ r, runOn (f b) p = (.ok (), r) →
          ((∃ q, runOn (l.forM f) r = (.ok (), q)) ↔ ∀ c ∈ l, C c) := fun r hb =>
        ih (keep b List.mem_cons_self p r hp hb) (fun c hc => step c (List.mem_cons_of_mem _ hc))
          fun c hc => keep c (List.mem_cons_of_mem _ hc)
      constructor
      · rintro ⟨q, h⟩
        obtain ⟨r, hb, hl⟩ := forM_cons_ok.1 h
        exact ⟨⟨r, hb⟩, (hrest r hb).1 ⟨q, hl⟩⟩
      · rintro ⟨⟨r, hb⟩, hl⟩
        obtain ⟨q, hq⟩ := (hrest r hb).2 hl
        exact ⟨q, forM_cons_ok.2 ⟨r, hb, hq⟩⟩

/-- A loop gets through, and leaves the program as it is, when each of its rounds does after those
before it. -/
theorem foldlM_idle {f : α → β → Action α} {l : List β} {a : α} {I : List β → α → Prop}
    (start : I [] a)
    (step : ∀ done c rest, l = done ++ c :: rest → ∀ a, I done a →
      ∃ a', runOn (f a c) p = (.ok a', p) ∧ I (done ++ [c]) a') :
    ∃ b, runOn (l.foldlM f a) p = (.ok b, p) ∧ I l b := by
  obtain ⟨b, q, hrun, rfl, hall⟩ := foldlM_exists (p := p) (f := f) (l := l) (a := a)
    (I := fun done a r => r = p ∧ I done a) ⟨rfl, start⟩ fun done c rest hsplit a r hr => by
      obtain ⟨rfl, hdone⟩ := hr
      obtain ⟨a', hc, hnext⟩ := step done c rest hsplit a hdone
      exact ⟨a', r, hc, rfl, hnext⟩
  exact ⟨b, hrun, hall⟩

/-- A fold none of whose rounds edits anything edits nothing. -/
theorem foldlM_idle_of_mem {f : α → β → Action α} {l : List β} {a : α}
    (step : ∀ c ∈ l, ∀ a, ∃ a', runOn (f a c) p = (.ok a', p)) :
    ∃ b, runOn (l.foldlM f a) p = (.ok b, p) := by
  obtain ⟨b, hrun, -⟩ := foldlM_idle (f := f) (l := l) (a := a) (I := fun _ _ => True) trivial
    fun done c rest hsplit a _ => by
      obtain ⟨a', hc⟩ := step c (by simp [hsplit]) a
      exact ⟨a', hc, trivial⟩
  exact ⟨b, hrun⟩

/-- A loop none of whose rounds edits anything edits nothing. -/
theorem forM_idle {f : β → Action Unit} {l : List β}
    (step : ∀ c ∈ l, runOn (f c) p = (.ok (), p)) : runOn (l.forM f) p = (.ok (), p) := by
  induction l with
  | nil => exact forM_nil_ok.2 rfl
  | cons c l ih =>
      exact forM_cons_ok.2 ⟨p, step c List.mem_cons_self,
        ih fun b hb => step b (List.mem_cons_of_mem _ hb)⟩

/-! ### Failures -/

/-- Whether an action gives up with no other errors than those that have a property. -/
def FailsOnly (E : StageError → Prop) (x : Action α) : Prop :=
  ∀ p e q, runOn x p = (.error e, q) → E e

variable {E : StageError → Prop}

/-- An action that only gives a result does not fail. -/
theorem failsOnly_pure (a : α) : FailsOnly E (pure a : Action α) :=
  fun _ _ _ h => nomatch h

/-- Reading the program does not fail. -/
theorem failsOnly_get : FailsOnly E (get : Action Program) :=
  fun _ _ _ h => nomatch h

/-- A change of an operation does not fail. -/
theorem failsOnly_update (id : OpId) (f : Operation → Operation) : FailsOnly E (update id f) :=
  fun _ _ _ h => nomatch h

/-- A missing value fails with the given error only. -/
theorem failsOnly_orFail (x : Option α) {e : StageError} (he : E e) : FailsOnly E (orFail x e) := by
  intro p e' q h
  cases x with
  | some a => cases h
  | none =>
      cases h
      exact he

/-- A condition fails with the given error only. -/
theorem failsOnly_ensure (condition : Bool) {e : StageError} (he : E e) :
    FailsOnly E (ensure condition e) := by
  intro p e' q h
  cases condition with
  | true => cases h
  | false =>
      cases h
      exact he

/-- A run of two actions fails in the first, or in the second after the first. -/
theorem bind_error {x : Action α} {f : α → Action β} {e : StageError} :
    runOn (x >>= f) p = (.error e, q) ↔ runOn x p = (.error e, q) ∨
      ∃ a r, runOn x p = (.ok a, r) ∧ runOn (f a) r = (.error e, q) := by
  rw [runOn_bind]
  rcases runOn x p with ⟨e' | a, r⟩
  · simp
  · simp only [Prod.mk.injEq, reduceCtorEq, false_and, Except.ok.injEq, false_or]
    exact ⟨fun h => ⟨a, r, ⟨rfl, rfl⟩, h⟩, by rintro ⟨_, _, ⟨rfl, rfl⟩, h⟩; exact h⟩

/-- Two actions one after the other fail with the errors of the one or of the other. -/
theorem FailsOnly.bind {x : Action α} {f : α → Action β} (hx : FailsOnly E x)
    (hf : ∀ a, FailsOnly E (f a)) : FailsOnly E (x >>= f) := by
  intro p e q h
  rcases bind_error.1 h with h | ⟨a, r, -, h⟩
  · exact hx p e q h
  · exact hf a r e q h

/-- A fold fails with the errors of its rounds. -/
theorem failsOnly_foldlM {f : α → β → Action α} (hf : ∀ a b, FailsOnly E (f a b)) (l : List β)
    (a : α) : FailsOnly E (l.foldlM f a) := by
  induction l generalizing a with
  | nil => exact failsOnly_pure a
  | cons b l ih =>
      rw [List.foldlM_cons]
      exact (hf a b).bind ih

/-- A loop with an intermediate result that fails does so in one of its rounds, up to which it is
done with the items before. -/
theorem foldlM_error {f : α → β → Action α} {l : List β} {a : α} {e : StageError}
    {I : List β → α → Program → Prop} (h : runOn (l.foldlM f a) p = (.error e, q))
    (start : I [] a p)
    (step : ∀ done c rest, l = done ++ c :: rest → ∀ a a' r s, I done a r →
      runOn (f a c) r = (.ok a', s) → I (done ++ [c]) a' s) :
    ∃ done c rest a r, l = done ++ c :: rest ∧ I done a r ∧ runOn (f a c) r = (.error e, q) := by
  have hrun : ∀ (rest done : List β) (a : α) (p : Program), l = done ++ rest → I done a p →
      runOn (rest.foldlM f a) p = (.error e, q) →
      ∃ done c rest a r, l = done ++ c :: rest ∧ I done a r ∧ runOn (f a c) r = (.error e, q) := by
    intro rest
    induction rest with
    | nil =>
        intro done a p _ _ h
        cases h
    | cons c rest ih =>
        intro done a p hl hI h
        rw [List.foldlM_cons] at h
        rcases bind_error.1 h with h | ⟨a', r, hc, h⟩
        · exact ⟨done, c, rest, a, p, hl, hI, h⟩
        · exact ih (done ++ [c]) a' r (by simp [hl]) (step done c rest hl a a' p r hI hc) h
  exact hrun l [] a p rfl start h

/-- A loop that fails does so in one of its rounds, up to which it keeps what its rounds keep. -/
theorem forM_error {f : β → Action Unit} {l : List β} {I : Program → Prop} {e : StageError}
    (h : runOn (l.forM f) p = (.error e, q)) (hp : I p)
    (step : ∀ b ∈ l, ∀ r s, I r → runOn (f b) r = (.ok (), s) → I s) :
    ∃ b ∈ l, ∃ r, I r ∧ runOn (f b) r = (.error e, q) := by
  induction l generalizing p with
  | nil => cases h
  | cons b l ih =>
      have h : runOn (f b >>= fun _ => l.forM f) p = (.error e, q) := h
      rcases bind_error.1 h with h | ⟨_, r, hb, h⟩
      · exact ⟨b, List.mem_cons_self, p, hp, h⟩
      · obtain ⟨c, hc, s, hs, herror⟩ := ih h (step b List.mem_cons_self p r hp hb)
          fun c hc => step c (List.mem_cons_of_mem _ hc)
        exact ⟨c, List.mem_cons_of_mem _ hc, s, hs, herror⟩

/-- A loop fails with the errors of its rounds. -/
theorem failsOnly_forM {f : β → Action Unit} (hf : ∀ b, FailsOnly E (f b)) (l : List β) :
    FailsOnly E (l.forM f) := by
  intro p e q h
  obtain ⟨b, -, r, -, h⟩ := forM_error (I := fun _ => True) h trivial fun _ _ _ _ _ _ => trivial
  exact hf b r e q h

end TileFlow.Action

/-! ## Loops of stages -/

namespace TileFlow

namespace Program

variable {p q : Program}

/-! ### Changes in place -/

/-- A program in which operations of a list may have been changed, each as a relation tells. -/
structure Edited (p : Program) (l : List OpId) (R : OpId → Operation → Prop) (q : Program) :
    Prop where
  body : q.body = p.body
  size : q.slots.size = p.slots.size
  live : ∀ id, q.isLive id = p.isLive id
  kept : ∀ id, id ∉ l → q.op id = p.op id
  changed : ∀ id ∈ l, q.op id = p.op id ∨ R id (q.op id)

/-- A program whose operations are edited in place stays well-formed. -/
theorem Edited.wellFormed {l : List OpId} {R : OpId → Operation → Prop} (h : p.Edited l R q)
    (hp : p.WellFormed) : q.WellFormed where
  distinct := h.body ▸ hp.distinct
  created id hid := by
    rw [walk, h.body] at hid
    rw [h.size]
    exact hp.created id hid

/-- One more operation of the list is changed. -/
theorem Edited.modify {l : List OpId} {R : OpId → Operation → Prop} {r : Program}
    (h : p.Edited l R r) {a : OpId} (ha : a ∈ l) (hsize : a < p.slots.size)
    {g : Operation → Operation} (hR : R a (g (r.op a))) : p.Edited l R (r.modify a g) := by
  have hself : (r.modify a g).op a = g (r.op a) := op_modify_self (h.size ▸ hsize) g
  have hother : ∀ id, id ≠ a → (r.modify a g).op id = r.op id := fun id hid =>
    op_congr (slot_modify_of_ne hid g)
  refine ⟨h.body, by rw [size_modify, h.size], fun id => ?_, fun id hid => ?_, fun id hid => ?_⟩
  · rw [isLive_modify, h.live]
  · rw [hother id (by rintro rfl; exact hid ha), h.kept id hid]
  · by_cases hida : id = a
    · rw [hida, hself]
      exact .inr hR
    · rw [hother id hida]
      exact h.changed id hid

end Program

/-- A loop over different operations that changes each of them in place. What the change does may
depend on the program, of which the loop has changed nothing but operations of its list. -/
theorem Action.forM_edited {p q : Program} {l : List OpId} {f : OpId → Action Unit}
    {R : OpId → Operation → Prop} (hl : l.Nodup) (hsize : ∀ id ∈ l, id < p.slots.size)
    (h : runOn (l.forM f) p = (.ok (), q))
    (step : ∀ id ∈ l, ∀ r s, p.Edited l R r → r.op id = p.op id →
      runOn (f id) r = (.ok (), s) → ∃ g, s = r.modify id g ∧ R id (g (p.op id))) :
    p.Edited l R q ∧ ∀ id ∈ l, R id (q.op id) := by
  -- What is done has been changed, and the others are still as they were.
  let I := fun (done : List OpId) (r : Program) => p.Edited l R r ∧
    (∀ id ∈ done, R id (r.op id)) ∧ ∀ id, id ∉ done → r.op id = p.op id
  have hstart : I [] p :=
    ⟨⟨rfl, rfl, fun _ => rfl, fun _ _ => rfl, fun _ _ => .inl rfl⟩, by simp, fun _ _ => rfl⟩
  have hloop : I l q := by
    refine forM_prefix hl h hstart ?_
    rintro a hal done hfresh r s ⟨hr, hdone, hrest⟩ ha
    have hop := hrest a hfresh
    obtain ⟨g, rfl, hR⟩ := step a hal r s hr hop ha
    have hself : (r.modify a g).op a = g (p.op a) := by
      rw [Program.op_modify_self (hr.size ▸ hsize a hal), hop]
    have hother : ∀ id, id ≠ a → (r.modify a g).op id = r.op id := fun id hid =>
      Program.op_congr (Program.slot_modify_of_ne hid g)
    refine ⟨hr.modify hal (hsize a hal) (by rwa [hop]), fun id hid => ?_, fun id hid => ?_⟩
    · by_cases hida : id = a
      · rw [hida, hself]
        exact hR
      · rw [hother id hida]
        exact hdone id (by simpa [hida] using hid)
    · rw [List.mem_append, List.mem_singleton, not_or] at hid
      rw [hother id hid.2, hrest id hid.1]
  exact ⟨hloop.1, hloop.2.1⟩

namespace Program

variable {p q : Program}

/-! ### Erasure -/

/-- A program without the trees of the body whose root has a property, at any depth. What is left
of the body is what is live. -/
structure Pruned (p : Program) (P : OpId → Bool) (q : Program) : Prop where
  body : q.body = p.body.prune P
  size : q.slots.size = p.slots.size
  op : ∀ id, q.op id = p.op id
  live : ∀ id ∈ p.walk, q.isLive id = true ↔ id ∈ q.walk

/-- A pruned program is well-formed. -/
theorem Pruned.wellFormed {P : OpId → Bool} (h : p.Pruned P q) (hp : p.WellFormed) :
    q.WellFormed where
  distinct := by
    rw [h.body]
    exact hp.distinct.prune P
  created id hid := by
    rw [walk, h.body] at hid
    rw [h.size]
    exact hp.created id (Forest.mem_preorder_of_prune hid).1

/-- A program whose body is live has only live operations left. -/
theorem Pruned.allLive {P : OpId → Bool} (h : p.Pruned P q) :
    ∀ id ∈ q.walk, q.isLive id = true := by
  intro id hid
  have hmem := hid
  rw [walk, h.body] at hmem
  exact (h.live id (Forest.mem_preorder_of_prune hmem).1).2 hid

/-- Only what a predicate says of the body matters for its pruning. -/
theorem Pruned.congr {P Q : OpId → Bool} (h : p.Pruned P q) (hPQ : ∀ id ∈ p.walk, P id = Q id) :
    p.Pruned Q q :=
  ⟨h.body.trans (Forest.prune_congr hPQ), h.size, h.op, h.live⟩

/-- One more erasure, of an operation that is skipped if it is gone already. -/
theorem Pruned.erase {P : OpId → Bool} {r s : Program} (h : p.Pruned P r) (hp : p.WellFormed)
    {id : OpId} (hid : id ∈ p.walk) (hs : s = if r.isLive id then r.erase id else r) :
    p.Pruned (fun j => P j || decide (j = id)) s := by
  have hbody : r.body.remove id = p.body.prune fun j => P j || decide (j = id) := by
    rw [h.body, Forest.remove_prune hp.distinct]
  split at hs
  · rename_i hlive
    obtain ⟨g, hg⟩ := Forest.mem_preorder_iff.1 ((h.live id hid).1 hlive)
    subst hs
    refine ⟨hbody, by rw [size_erase, h.size], fun j => by rw [op_erase, h.op], fun j hj => ?_⟩
    rw [isLive_erase, h.live j hj, walkIn, below_of_below? hg, walk, walk, body_erase,
      Forest.mem_preorder_remove (h.wellFormed hp).distinct hg]
  · rename_i hlive
    subst hs
    have hgone : id ∉ s.walk := fun hmem => hlive ((h.live id hid).2 hmem)
    refine ⟨?_, h.size, h.op, h.live⟩
    rw [← hbody, Forest.remove_eq_self hgone]

end Program

/-- A loop over operations of the body that erases those with a property, unless they are gone
already. -/
theorem Action.forM_pruned {p q : Program} (hp : p.WellFormed)
    (hlive : ∀ id ∈ p.walk, p.isLive id = true) {f : OpId → Action Unit} {P : Operation → Bool}
    (hf : ∀ id r s, runOn (f id) r = (.ok (), s) →
      s = if P (r.op id) && r.isLive id then r.erase id else r)
    (h : runOn (p.walk.forM f) p = (.ok (), q)) : p.Pruned (fun id => P (p.op id)) q := by
  have hrun : ∀ (l : List OpId), (∀ id ∈ l, id ∈ p.walk) → ∀ (Q : OpId → Bool) (r : Program),
      p.Pruned Q r → runOn (l.forM f) r = (.ok (), q) →
      p.Pruned (fun id => Q id || (decide (id ∈ l) && P (p.op id))) q := by
    intro l
    induction l with
    | nil =>
        intro _ Q r hr h
        obtain rfl := forM_nil_ok.1 h
        simpa using hr
    | cons a l ih =>
        intro hl Q r hr h
        obtain ⟨s, ha, h⟩ := forM_cons_ok.1 h
        have hs := hf a r s ha
        rw [hr.op] at hs
        have hla := hl a List.mem_cons_self
        have htail : ∀ id ∈ l, id ∈ p.walk := fun id hid => hl id (List.mem_cons_of_mem _ hid)
        by_cases hP : P (p.op a) = true
        · rw [hP, Bool.true_and] at hs
          have := ih htail _ s (hr.erase hp hla hs) h
          refine this.congr fun id _ => ?_
          by_cases hid : id = a
          · simp [hid, hP]
          · simp [hid]
        · simp only [hP, Bool.false_and, Bool.false_eq_true, if_false] at hs
          have := ih htail Q s (hs ▸ hr) h
          refine this.congr fun id _ => ?_
          by_cases hid : id = a
          · simp [hid, hP]
          · simp [hid]
  have hstart : p.Pruned (fun _ => false) p :=
    ⟨(Forest.prune_false _).symm, rfl, fun _ => rfl, fun id hid => by simp [hlive id hid, hid]⟩
  refine (hrun p.walk (fun _ h => h) _ p hstart h).congr fun id hid => ?_
  simp [hid]

/-! ### Erasing at the top -/

section Top

variable {p q r : Program} {id : OpId}

/-- A program without the trees of the body whose root has a property. -/
structure Program.PrunedTop (p : Program) (P : OpId → Bool) (q : Program) : Prop where
  trees : q.body.trees = p.body.trees.filter fun t => !P t.1
  size : q.slots.size = p.slots.size
  op : ∀ id, q.op id = p.op id

namespace Program.PrunedTop

variable {P Q : OpId → Bool}

/-- A program is pruned of nothing when nothing happens. -/
theorem refl (p : Program) : p.PrunedTop (fun _ => false) p :=
  ⟨by simp, rfl, fun _ => rfl⟩

/-- The operations at the top that are left are those that were not chosen. -/
theorem roots (h : p.PrunedTop P q) : q.body.roots = p.body.roots.filter fun id => !P id := by
  rw [Forest.roots_eq, h.trees, Forest.roots_eq, List.filter_map]
  rfl

/-- Only what a predicate says of the top matters for its pruning. -/
theorem congr (h : p.PrunedTop P q) (hPQ : ∀ id ∈ p.body.roots, P id = Q id) :
    p.PrunedTop Q q where
  trees := by
    rw [h.trees]
    refine List.filter_congr fun t ht => ?_
    rw [hPQ t.1 (Forest.mem_roots.2 ⟨t.2, ht⟩)]
  size := h.size
  op := h.op

/-- What is left is in the order of before. -/
theorem walk_sublist (h : p.PrunedTop P q) : q.walk.Sublist p.walk := by
  rw [Program.walk, Program.walk, Forest.preorder_eq_flatMap, Forest.preorder_eq_flatMap, h.trees]
  exact List.filter_sublist.flatMap _

/-- A program that is pruned at its top is well-formed. -/
theorem wellFormed (h : p.PrunedTop P q) (hp : p.WellFormed) : q.WellFormed where
  distinct := hp.distinct.sublist h.walk_sublist
  created id hid := by
    rw [h.size]
    exact hp.created id (h.walk_sublist.subset hid)

/-- One more operation at the top is erased. -/
theorem erase (h : p.PrunedTop P r) (hp : p.WellFormed) (hid : id ∈ p.body.roots) :
    p.PrunedTop (fun j => P j || decide (j = id)) (r.erase id) where
  trees := by
    have hkeep : ∀ t ∈ p.body.trees, (t.1, t.2.remove id) = t := fun t ht => by
      rw [Forest.remove_eq_self (hp.distinct.root_not_below ht hid)]
    rw [body_erase, Forest.trees_remove (h.wellFormed hp).distinct, h.trees, List.filter_filter,
      (List.map_congr_left fun t ht => hkeep t (List.mem_of_mem_filter ht)).trans (List.map_id _)]
    exact List.filter_congr fun t _ => by simp [Bool.and_comm]
  size := by rw [size_erase, h.size]
  op j := by rw [op_erase, h.op]

end Program.PrunedTop

/-- A loop over the operations at the top that erases those with a property gets through. -/
theorem Action.foldlM_prunedTop {α : Type} {f : α → OpId → Action α} {P : OpId → Bool}
    {J : List OpId → α → Prop} {a : α} (hp : p.WellFormed) (start : J [] a)
    (round : ∀ done id rest, p.body.roots = done ++ id :: rest → ∀ a r, J done a →
      r.op id = p.op id → ∃ a', runOn (f a id) r = (.ok a', if P id then r.erase id else r) ∧
        J (done ++ [id]) a') :
    ∃ b q, runOn (p.body.roots.foldlM f a) p = (.ok b, q) ∧ p.PrunedTop P q ∧
      ((∀ id ∈ p.body.roots, P id = false) → q = p) := by
  let I := fun (done : List OpId) (a : α) (r : Program) => J done a ∧
    p.PrunedTop (fun id => decide (id ∈ done) && P id) r ∧ ((∀ id ∈ done, P id = false) → r = p)
  have hstart : I [] a p := ⟨start, by simpa using Program.PrunedTop.refl p, fun _ => rfl⟩
  obtain ⟨b, q, hrun, -, hq, hidle⟩ := foldlM_exists (f := f) (l := p.body.roots) hstart
    fun done id rest hsplit a r ⟨ha, hr, hidle⟩ => by
      obtain ⟨a', hrun, ha'⟩ := round done id rest hsplit a r ha (hr.op id)
      refine ⟨a', _, hrun, ha', ?_, fun hnone => ?_⟩
      · split
        · rename_i hP
          refine (hr.erase hp (by simp [hsplit])).congr fun j _ => ?_
          by_cases hj : j = id
          · simp [hj, hP]
          · simp [hj]
        · rename_i hP
          refine hr.congr fun j _ => ?_
          by_cases hj : j = id
          · simp [hj, hP]
          · simp [hj]
      · rw [if_neg (by simp [hnone id (by simp)]), hidle fun j hj => hnone j (by simp [hj])]
  exact ⟨b, q, hrun, hq.congr fun id hid => by simp [hid], hidle⟩

/-- A loop over the operations at the top without a result. -/
theorem Action.forM_prunedTop {f : OpId → Action Unit} {P : OpId → Bool} (hp : p.WellFormed)
    (round : ∀ id r, r.op id = p.op id →
      runOn (f id) r = (.ok (), if P id then r.erase id else r)) :
    ∃ q, runOn (p.body.roots.forM f) p = (.ok (), q) ∧ p.PrunedTop P q ∧
      ((∀ id ∈ p.body.roots, P id = false) → q = p) := by
  obtain ⟨⟨⟩, q, hrun, hq⟩ := foldlM_prunedTop (P := P) (f := fun _ id => f id) (a := ())
    (J := fun _ _ => True) hp trivial fun done id rest _ _ r _ hop => ⟨(), round id r hop, trivial⟩
  exact ⟨q, forM_eq_ok_iff_foldlM.2 hrun, hq⟩

end Top

end TileFlow
