import TileFlow.Proofs.Program.Renumbering
import TileFlow.Proofs.Stage.Action

/-!
# Actions that go in step

Two actions go in step when they end alike on a program and on a renumbering of it: both succeed,
with results that correspond, or both give up with the same error, and what they leave is renumbered
in the same way. Each way of putting actions together keeps them in step, and so do the edits at the
same place of both programs. As an operation must have been created before it can be erased, being
in step is asked for wherever a number of operations was created.

## Main definitions

* `Action.InStepAt`, `Action.InStep`: actions that end alike on a program and on a renumbering of
  it.
* `Action.EnsuresInStep`: actions in step after which a property holds.

## Main results

* `Action.InStep.bind`, `Action.InStep.get_bind`: actions one after the other.
* `Action.InStep.forM`, `Action.InStep.foldlM`, `Action.InStep.mapM`: loops.
* `Action.EnsuresInStep.foldlM`: a loop with a property of what is left to do.
* `Action.inStep_insertBefore`, `Action.inStep_erase`, `Action.inStep_update`: the edits.
* `Action.inStepAt_moveAll`: a loop that moves trees.
-/

namespace TileFlow.Action

variable {α β γ δ ε ζ : Type} {r : OpId → OpId} {n m : Nat} {p q : Program} {φ : α → β} {ψ : γ → δ}

/-- Whether an action on a program and another one on a renumbering of it end alike, with results
that correspond, and forget no operation. -/
def InStepAt (r : OpId → OpId) (p q : Program) (x : Action α) (y : Action β) (φ : α → β) : Prop :=
  (runOn x p).2.Renumbers r (runOn y q).2 ∧ p.slots.size ≤ (runOn x p).2.slots.size ∧
    (runOn y q).1 = (runOn x p).1.map φ

/-- Whether two actions go in step wherever a number of operations was created. -/
def InStep (r : OpId → OpId) (n : Nat) (x : Action α) (y : Action β) (φ : α → β) : Prop :=
  ∀ p q : Program, p.Renumbers r q → n ≤ p.slots.size → InStepAt r p q x y φ

/-- What goes in step from a number of operations on does so from a greater one on. -/
theorem InStep.mono {x : Action α} {y : Action β} (h : InStep r n x y φ) (hnm : n ≤ m) :
    InStep r m x y φ :=
  fun p q hpq hm => h p q hpq (Nat.le_trans hnm hm)

/-! ### Actions that look -/

/-- Two actions that edit nothing and give matching results are in step. -/
theorem inStepAt_of_eq {x : Action α} {y : Action β} {result : Except StageError α}
    (h : p.Renumbers r q) (hx : runOn x p = (result, p)) (hy : runOn y q = (result.map φ, q)) :
    InStepAt r p q x y φ := by
  rw [InStepAt, hx, hy]
  exact ⟨h, Nat.le_refl _, rfl⟩

/-- Giving matching results is in step. -/
theorem inStep_pure_map (φ : α → β) (a : α) : InStep r n (pure a) (pure (φ a)) φ := fun _ _ h _ =>
  inStepAt_of_eq h (runOn_pure a _) (runOn_pure (φ a) _)

/-- Giving the same result is in step. -/
theorem inStep_pure (a : α) : InStep r n (pure a) (pure a) id :=
  inStep_pure_map id a

/-- Failing with the same error is in step. -/
theorem inStep_throw (e : StageError) :
    InStep r n (throw e : Action α) (throw e : Action β) φ := fun _ _ h _ =>
  inStepAt_of_eq h (runOn_throw e _) (runOn_throw e _)

/-- Nothing runs behind an action that gives up. -/
theorem inStep_throw_bind (e : StageError) (f : ε → Action α) (g : ζ → Action β) :
    InStep r n ((throw e : Action ε) >>= f) ((throw e : Action ζ) >>= g) φ :=
  inStep_throw e

/-- Matching optional values are in step. -/
theorem inStep_orFail_map (φ : α → β) (x : Option α) (e : StageError) :
    InStep r n (orFail x e) (orFail (x.map φ) e) φ := by
  cases x with
  | none => exact inStep_throw e
  | some a => exact inStep_pure_map φ a

/-- The same optional value is in step. -/
theorem inStep_orFail (x : Option α) (e : StageError) :
    InStep r n (orFail x e) (orFail x e) id := by
  have h : InStep r n (orFail x e) (orFail (x.map id) e) id := inStep_orFail_map id x e
  rwa [Option.map_id_fun, id] at h

/-- The same condition is in step. -/
theorem inStep_ensure (condition : Bool) (e : StageError) :
    InStep r n (ensure condition e) (ensure condition e) id := by
  cases condition with
  | false => exact inStep_throw e
  | true => exact inStep_pure ()

/-! ### Actions one after the other -/

/-- Second actions run on what two first ones have left in step. -/
theorem InStepAt.bind_map {x : Action α} {y : Action β} {f : α → Action γ} {g : β → Action δ}
    (hx : InStepAt r p q x y φ) (hf : ∀ a p' q', runOn x p = (.ok a, p') → p'.Renumbers r q' →
      p.slots.size ≤ p'.slots.size → InStepAt r p' q' (f a) (g (φ a)) ψ) :
    InStepAt r p q (x >>= f) (y >>= g) ψ := by
  obtain ⟨hpq, hsize, hresult⟩ := hx
  rw [InStepAt, runOn_bind, runOn_bind]
  rcases hxrun : runOn x p with ⟨e | a, p'⟩ <;> rcases hyrun : runOn y q with ⟨result, q'⟩ <;>
    rw [hxrun, hyrun] at hpq hresult <;> rw [hxrun] at hsize <;> cases hresult
  · exact ⟨hpq, hsize, rfl⟩
  · obtain ⟨hpq', hsize', hresult'⟩ := hf a p' q' hxrun hpq hsize
    exact ⟨hpq', Nat.le_trans hsize hsize', hresult'⟩

/-- Actions in step may follow each other, where the second may depend on what the first has done.
-/
theorem InStepAt.bind {x y : Action α} {f : α → Action γ} {g : α → Action δ}
    (hx : InStepAt r p q x y id) (hf : ∀ a p' q', runOn x p = (.ok a, p') → p'.Renumbers r q' →
      p.slots.size ≤ p'.slots.size → InStepAt r p' q' (f a) (g a) ψ) :
    InStepAt r p q (x >>= f) (y >>= g) ψ :=
  hx.bind_map hf

/-- Actions in step may follow each other, where the second are given matching results. -/
theorem InStep.bind_map {x : Action α} {y : Action β} {f : α → Action γ} {g : β → Action δ}
    (hx : InStep r n x y φ) (hf : ∀ a, InStep r n (f a) (g (φ a)) ψ) :
    InStep r n (x >>= f) (y >>= g) ψ := fun p q h hn =>
  (hx p q h hn).bind_map fun a p' q' _ h' hsize => hf a p' q' h' (Nat.le_trans hn hsize)

/-- Actions in step may follow each other, where the second are given the same result. -/
theorem InStep.bind {x y : Action α} {f : α → Action γ} {g : α → Action δ}
    (hx : InStep r n x y id) (hf : ∀ a, InStep r n (f a) (g a) ψ) :
    InStep r n (x >>= f) (y >>= g) ψ :=
  hx.bind_map hf

/-- Actions that start by looking at the programs may use what they see there. -/
theorem InStepAt.get_bind {f : Program → Action γ} {g : Program → Action δ}
    (hf : InStepAt r p q (f p) (g q) ψ) : InStepAt r p q (get >>= f) (get >>= g) ψ := by
  rw [InStepAt, runOn_bind, runOn_bind]
  exact hf

/-- Reading the two programs is in step when what is done with them is. -/
theorem InStep.get_bind {f : Program → Action γ} {g : Program → Action δ}
    (hf : ∀ p q : Program, p.Renumbers r q → n ≤ p.slots.size →
      InStep r p.slots.size (f p) (g q) ψ) : InStep r n (get >>= f) (get >>= g) ψ :=
  fun p q h hn => .get_bind (hf p q h hn p q h (Nat.le_refl _))

/-! ### Loops -/

/-- Folds over matching lists are in step when their rounds are, from matching results on. -/
theorem InStep.foldlM_map {f : α → γ → Action α} {g : β → δ → Action β} {l : List γ}
    (hf : ∀ c ∈ l, ∀ a, InStep r n (f a c) (g (φ a) (ψ c)) φ) (a : α) :
    InStep r n (l.foldlM f a) ((l.map ψ).foldlM g (φ a)) φ := by
  induction l generalizing a with
  | nil => exact inStep_pure_map φ a
  | cons c l ih =>
      rw [List.map_cons, List.foldlM_cons, List.foldlM_cons]
      exact (hf c List.mem_cons_self a).bind_map fun a' => ih (fun d hd => hf d (.tail _ hd)) a'

/-- Folds over matching lists are in step when their rounds are, from the same result on. -/
theorem InStep.foldlM {f : α → γ → Action α} {g : α → δ → Action α} {l : List γ}
    (hf : ∀ c ∈ l, ∀ a, InStep r n (f a c) (g a (ψ c)) id) (a : α) :
    InStep r n (l.foldlM f a) ((l.map ψ).foldlM g a) id :=
  .foldlM_map hf a

/-- Loops over matching lists are in step when their rounds are. -/
theorem InStep.forM {f : γ → Action Unit} {g : δ → Action Unit} {l : List γ}
    (hf : ∀ c ∈ l, InStep r n (f c) (g (ψ c)) id) : InStep r n (l.forM f)
    ((l.map ψ).forM g) id := by
  induction l with
  | nil => exact inStep_pure ()
  | cons c l ih =>
      show InStep r n (f c >>= fun _ => l.forM f) (g (ψ c) >>= fun _ => (l.map ψ).forM g) id
      exact (hf c List.mem_cons_self).bind fun _ => ih fun d hd => hf d (.tail _ hd)

/-- A loop over the same data. -/
theorem InStep.forM_same {f g : γ → Action Unit} {l : List γ}
    (hf : ∀ c ∈ l, InStep r n (f c) (g c) id) :
    InStep r n (l.forM f) (l.forM g) id := by
  have h : InStep r n (l.forM f) ((l.map id).forM g) id := .forM hf
  rwa [List.map_id] at h

/-- Traversals of matching lists are in step when their rounds are. -/
theorem InStep.mapM {f : γ → Action α} {g : δ → Action α} {l : List γ}
    (hf : ∀ c ∈ l, InStep r n (f c) (g (ψ c)) id) : InStep r n (l.mapM f)
    ((l.map ψ).mapM g) id := by
  induction l with
  | nil => exact inStep_pure []
  | cons c l ih =>
      rw [List.map_cons, List.mapM_cons, List.mapM_cons]
      exact (hf c List.mem_cons_self).bind fun b =>
        (ih fun d hd => hf d (.tail _ hd)).bind fun bs => inStep_pure (b :: bs)

/-! ### What actions in step ensure -/

/-- Whether two actions go in step, and a property holds of what the first one leaves when it
succeeds. -/
def EnsuresInStep (r : OpId → OpId) (p q : Program) (x : Action α) (y : Action β) (φ : α → β)
    (Q : Program → Prop) : Prop :=
  InStepAt r p q x y φ ∧ ∀ a p', runOn x p = (.ok a, p') → Q p'

variable {Q R : Program → Prop}

/-- Actions in step ensure what is weaker. -/
theorem EnsuresInStep.mono {x : Action α} {y : Action β} (hx : EnsuresInStep r p q x y φ Q)
    (h : ∀ p', Q p' → R p') : EnsuresInStep r p q x y φ R :=
  ⟨hx.1, fun a p' hrun => h p' (hx.2 a p' hrun)⟩

/-- Reading the two programs ensures what is ensured by what is done with them. -/
theorem EnsuresInStep.get_bind {f : Program → Action γ} {g : Program → Action δ}
    (hf : EnsuresInStep r p q (f p) (g q) ψ Q) :
    EnsuresInStep r p q (get >>= f) (get >>= g) ψ Q :=
  ⟨.get_bind hf.1, fun a p' hrun => hf.2 a p' (get_bind_ok.1 hrun)⟩

/-- Actions in step that ensure a property may be followed by ones that start from it. -/
theorem EnsuresInStep.bind {x y : Action α} {f : α → Action γ} {g : α → Action δ}
    (hx : EnsuresInStep r p q x y id Q) (hf : ∀ a p' q', p'.Renumbers r q' →
      p.slots.size ≤ p'.slots.size → Q p' → EnsuresInStep r p' q' (f a) (g a) ψ R) :
    EnsuresInStep r p q (x >>= f) (y >>= g) ψ R := by
  refine ⟨hx.1.bind fun a p' q' hrun h hsize => (hf a p' q' h hsize (hx.2 a p' hrun)).1,
    fun b s h => ?_⟩
  obtain ⟨a, p', hrun, h⟩ := bind_ok.1 h
  have hstep := hx.1
  rw [InStepAt, hrun] at hstep
  exact (hf a p' _ hstep.1 hstep.2.1 (hx.2 a p' hrun)).2 b s h

/-- A loop that ends with nothing left to do, when each of its rounds keeps a property of what is
left to do. -/
theorem EnsuresInStep.foldlM {f : α → γ → Action α} {g : α → δ → Action α}
    {I : List γ → Program → Prop} {l : List γ} {a : α} (h : p.Renumbers r q) (start : I l p)
    (step : ∀ c rest a p q, I (c :: rest) p → p.Renumbers r q →
      EnsuresInStep r p q (f a c) (g a (ψ c)) id (I rest)) :
    EnsuresInStep r p q (l.foldlM f a) ((l.map ψ).foldlM g a) id (I []) := by
  induction l generalizing p q a with
  | nil =>
      refine ⟨inStep_pure a p q h (Nat.zero_le _), fun b p' hrun => ?_⟩
      obtain ⟨-, rfl⟩ := foldlM_nil_ok.1 hrun
      exact start
  | cons c l ih =>
      rw [List.map_cons, List.foldlM_cons, List.foldlM_cons]
      exact (step c l a p q start h).bind fun b p' q' h' _ hI => ih h' hI

/-- Loops in step keep an invariant that speaks of the rounds to come. -/
theorem EnsuresInStep.forM {f : γ → Action Unit} {g : δ → Action Unit}
    {I : List γ → Program → Prop} {l : List γ} (h : p.Renumbers r q) (start : I l p)
    (step : ∀ c rest p q, I (c :: rest) p → p.Renumbers r q →
      EnsuresInStep r p q (f c) (g (ψ c)) id (I rest)) :
    EnsuresInStep r p q (l.forM f) ((l.map ψ).forM g) id (I []) := by
  rw [forM_eq_foldlM, forM_eq_foldlM]
  exact .foldlM h start fun c rest _ => step c rest

/-! ### Edits -/

/-- Creations before matching operations are in step, and make matching ones. -/
theorem inStep_insertBefore (anchor : OpId) (op : Operation) :
    InStep r n (insertBefore anchor op) (insertBefore (r anchor) op) r := fun p q h _ => by
  obtain ⟨parent, i, hp⟩ := Program.insertBefore_eq p anchor op
  obtain ⟨parent', i', hq⟩ := Program.insertBefore_eq q (r anchor) op
  refine ⟨h.insertBefore anchor op, ?_, ?_⟩
  · rw [runOn_insertBefore, hp, Program.size_insertAt]
    exact Nat.le_succ _
  · rw [runOn_insertBefore, runOn_insertBefore, hp, hq, Program.fst_insertAt, Program.fst_insertAt,
      ← h.size]
    rfl

/-- Creations below matching operations are in step, and make matching ones. -/
theorem inStep_append (parent : OpId) (op : Operation) :
    InStep r n (append parent op) (append (r parent) op) r := fun p q h _ => by
  refine ⟨h.append (some parent) op, ?_, ?_⟩
  · rw [runOn_append, Program.append, Program.size_insertAt]
    exact Nat.le_succ _
  · rw [runOn_append, runOn_append, Program.append, Program.append, Program.fst_insertAt,
      Program.fst_insertAt, ← h.size]
    rfl

/-- Creations in front of what is below matching operations are in step. -/
theorem inStep_prepend (parent : OpId) (op : Operation) :
    InStep r n (prepend parent op) (prepend (r parent) op) r := fun p q h _ => by
  refine ⟨h.insertAt (some parent) 0 op, ?_, ?_⟩
  · rw [runOn_prepend, Program.size_insertAt]
    exact Nat.le_succ _
  · rw [runOn_prepend, runOn_prepend, Program.fst_insertAt, Program.fst_insertAt, ← h.size]
    rfl

/-- The same change of matching operations is in step. -/
theorem inStep_update (a : OpId) (f : Operation → Operation) :
    InStep r n (update a f) (update (r a) f) id := fun p _ h _ =>
  ⟨h.modify a f, Nat.le_of_eq (Program.size_modify p a f).symm, rfl⟩

/-- Erasures of matching operations are in step. -/
theorem inStep_erase {a : OpId} (ha : a < n) : InStep r n (erase a) (erase (r a)) id :=
  fun p _ h hn => ⟨h.erase (Nat.lt_of_lt_of_le ha hn), Nat.le_of_eq
    (Program.size_erase p a).symm, rfl⟩

/-- Operations of the body are moved below one at the top, which stays there. -/
theorem inStepAt_moveAll {l : List OpId} {a : OpId} (h : p.Renumbers r q) (ha : a ∈ p.body.roots)
    (hl : ∀ b ∈ l, b ∈ p.walk ∧ b ≠ a) :
    InStepAt r p q (l.forM fun b => moveTo b a) ((l.map r).forM fun b => moveTo b (r a)) id := by
  refine (EnsuresInStep.forM (I := fun rest p => a ∈ p.body.roots ∧ ∀ b ∈ rest,
    b ∈ p.walk ∧ b ≠ a) h ⟨ha, hl⟩ fun b rest p q hI h => ?_).1
  obtain ⟨hroot, hrest⟩ := hI
  obtain ⟨hb, hne⟩ := hrest b List.mem_cons_self
  obtain ⟨hroot', hwalk⟩ := h.tree.moveTo_root hroot hb hne
  refine ⟨⟨h.moveTo hroot hb hne, Nat.le_of_eq (Program.size_moveTo p b a).symm, rfl⟩, ?_⟩
  rintro _ _ ⟨⟩
  exact ⟨hroot', fun c hc =>
    have ⟨hc, hca⟩ := hrest c (List.mem_cons_of_mem _ hc)
    ⟨(hwalk c).2 hc, hca⟩⟩

end TileFlow.Action
