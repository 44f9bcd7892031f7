import TileFlow.Core.Cleanup
import TileFlow.Proofs.Program.Graft
import TileFlow.Proofs.Stage.Action

/-!
# Cleaning up

The stages that clean up prune the trees of functions, or erase operations at the top that are no
functions with a body. Either way a function keeps its operations and their order. What is erased at
the top is told from the program before: a private declaration that no call names, when the calls
below terminators are gone, and a copy of what came earlier.

## Main definitions

* `Program.neededSymbols`: the symbols that calls name when the terminators are gone.
* `Program.isCopy`: an operation at the top with the content of an earlier one.
* `Program.HasFunction`: a symbol with a function at the top.

## Main results

* `dropRuntime_pruned`: what is left when the runtime operations are dropped.
* `dropUnused_runs`, `mergeEqual_runs`: what is left when declarations and copies are dropped.
* `dropUnused_keeps`, `mergeEqual_keeps`: functions at the top stay.
* `cleanUp_fixpoint`: cleaning up drops what is dead, and once is enough.
-/

namespace TileFlow

open TileFlow.Action

variable {p q r : Program} {id : OpId}

/-! ### Runtime operations and terminators -/

/-- Whether an operation is a terminator that the backend has no use for. -/
def Operation.isTerminator (op : Operation) : Bool :=
  op.is "aie.end" || op.is "scf.yield"

/-- What `eraseLive` leaves: the operation is gone if it was there. -/
theorem eraseLive_ok {id : OpId} :
    runOn (eraseLive id) p = (.ok (), q) ↔ q = if p.isLive id then p.erase id else p := by
  rw [eraseLive, get_bind_ok]
  split
  · simp [eq_comm]
  · simp [eq_comm]

/-- Runtime operations are dropped with all below them. -/
theorem dropRuntime_pruned (hp : p.WellFormed) (hlive : ∀ id ∈ p.walk, p.isLive id = true)
    (h : runOn dropRuntime p = (.ok (), q)) :
    p.Pruned (fun id => (p.op id).dialect == "aiex") q := by
  rw [dropRuntime, get_bind_ok] at h
  refine forM_pruned (P := fun op => op.dialect == "aiex") hp hlive (fun id r s hstep => ?_) h
  rw [get_bind_ok] at hstep
  split at hstep
  · rename_i hdialect
    rw [beq_iff_eq.2 hdialect, Bool.true_and]
    exact eraseLive_ok.1 hstep
  · rename_i hdialect
    rw [beq_eq_false_iff_ne.2 hdialect, Bool.false_and]
    simpa [eq_comm] using hstep

/-- A round of the loop over the terminators of `dropUnused`. -/
def dropTerminator (id : OpId) : Action Unit := do
  let op := (← get).op id
  if op.is "aie.end" || op.is "scf.yield" then eraseLive id

/-- Dropping a terminator never fails, and what it leaves. -/
theorem runOn_dropTerminator (id : OpId) (p : Program) : runOn (dropTerminator id) p =
    (.ok (), if (p.op id).isTerminator && p.isLive id then p.erase id else p) := by
  rw [dropTerminator, runOn_bind, runOn_get]
  dsimp only
  rw [← Operation.isTerminator]
  rcases (p.op id).isTerminator with _ | _
  · rfl
  · exact eraseLive_ok.2 (by simp)

/-- What a run of `dropTerminator` leaves. -/
theorem dropTerminator_ok (h : runOn (dropTerminator id) p = (.ok (), q)) :
    q = if (p.op id).isTerminator && p.isLive id then p.erase id else p :=
  (Prod.mk.inj (h.symm.trans (runOn_dropTerminator id p))).2

/-- Without terminators the loop does nothing. -/
theorem dropTerminators_idle (hnone : ∀ id ∈ p.walk, (p.op id).isTerminator = false) :
    runOn (p.walk.forM dropTerminator) p = (.ok (), p) := forM_idle fun id hid => by
  rw [runOn_dropTerminator, hnone id hid]
  rfl

/-! ### Declarations that no call names -/

/-- A round of the loop over the operations at the top of `dropUnused`. -/
def dropDeclaration (called : List String) (id : OpId) : Action Unit := do
  if ((← get).op id).isUnused called then Action.erase id

/-- Dropping the declarations that are not called succeeds and leaves exactly the others; with none
to drop nothing changes. -/
theorem dropDeclarations_runs (hp : p.WellFormed) (called : List String) :
    ∃ q, runOn (p.body.roots.forM (dropDeclaration called)) p = (.ok (), q) ∧
      p.PrunedTop (fun id => (p.op id).isUnused called) q ∧
      ((∀ id ∈ p.body.roots, (p.op id).isUnused called = false) → q = p) := by
  refine forM_prunedTop hp fun id r hop => ?_
  rw [dropDeclaration, runOn_bind]
  simp only [runOn_get, hop]
  split <;> simp

/-- The symbols that calls name, if there are no terminators and nothing below them. -/
def Program.neededSymbols (p : Program) : List String :=
  ((p.body.prune fun id => (p.op id).isTerminator).preorder.filter fun id =>
    (p.op id).isCall).filterMap fun id => (p.op id).operandSymbol? 0

/-- The symbols called after the terminators are gone are the needed ones. -/
theorem Program.Pruned.calledSymbols (h : p.Pruned (fun id => (p.op id).isTerminator) r) :
    r.calledSymbols = p.neededSymbols := by
  rw [Program.calledSymbols, Program.walk, h.body, Program.neededSymbols]
  simp only [h.op]

/-- Terminators are dropped with all below them, and then declarations that are not called. -/
theorem dropUnused_runs (hp : p.WellFormed) (hlive : ∀ id ∈ p.walk, p.isLive id = true) :
    ∃ r q, runOn dropUnused p = (.ok (), q) ∧ p.Pruned (fun id => (p.op id).isTerminator) r ∧
      r.PrunedTop (fun id => (r.op id).isUnused r.calledSymbols) q := by
  obtain ⟨⟨⟩, r, hloop, -⟩ := foldlM_exists (p := p) (f := fun _ => dropTerminator) (l := p.walk)
    (a := ()) (I := fun _ _ _ => True) trivial fun _ id _ _ _ r _ =>
      ⟨(), _, runOn_dropTerminator id r, trivial⟩
  have hloop := forM_eq_ok_iff_foldlM.2 hloop
  have hr := forM_pruned (P := Operation.isTerminator) hp hlive
    (fun id r s hstep => dropTerminator_ok hstep) hloop
  obtain ⟨q, hrun, hq, -⟩ := dropDeclarations_runs (hr.wellFormed hp) r.calledSymbols
  exact ⟨r, q, get_bind_ok.2 (bind_ok.2 ⟨(), r, hloop, get_bind_ok.2 (get_bind_ok.2 hrun)⟩), hr, hq⟩

/-- What a run that gets through has done: first the terminators are dropped, then declarations. -/
theorem dropUnused_ok (h : runOn dropUnused p = (.ok (), q)) :
    ∃ r, runOn (p.walk.forM dropTerminator) p = (.ok (), r) ∧ (r.WellFormed →
      r.PrunedTop (fun id => (r.op id).isUnused r.calledSymbols) q) := by
  rw [dropUnused, get_bind_ok, bind_ok] at h
  obtain ⟨_, r, hloop, h⟩ := h
  rw [get_bind_ok, get_bind_ok] at h
  refine ⟨r, hloop, fun hr => ?_⟩
  obtain ⟨q', hrun, hq, -⟩ := dropDeclarations_runs hr r.calledSymbols
  obtain rfl : q' = q := (Prod.mk.inj (hrun.symm.trans h)).2
  exact hq

/-- Without terminators, `dropUnused` drops what the calls of the program do not use. -/
theorem dropUnused_ok_of_none (hp : p.WellFormed)
    (hnone : ∀ id ∈ p.walk, (p.op id).isTerminator = false)
    (h : runOn dropUnused p = (.ok (), q)) :
    p.PrunedTop (fun id => (p.op id).isUnused p.calledSymbols) q := by
  obtain ⟨r, hloop, hq⟩ := dropUnused_ok h
  obtain rfl : r = p := (Prod.mk.inj (hloop.symm.trans (dropTerminators_idle hnone))).2
  exact hq hp

/-- Without terminators and unused declarations nothing is dropped. -/
theorem dropUnused_idle (hp : p.WellFormed)
    (hnone : ∀ id ∈ p.walk, (p.op id).isTerminator = false)
    (hused : ∀ id ∈ p.body.roots, (p.op id).isUnused p.calledSymbols = false) :
    runOn dropUnused p = (.ok (), p) := by
  obtain ⟨q, hrun, -, hq⟩ := dropDeclarations_runs hp p.calledSymbols
  obtain rfl := hq hused
  exact get_bind_ok.2
    (bind_ok.2 ⟨(), q, dropTerminators_idle hnone, get_bind_ok.2 (get_bind_ok.2 hrun)⟩)

/-! ### Operations that equal an earlier one -/

/-- What has to be equal for operations to be merged. -/
def Operation.content (op : Operation) : String × List Attribute × Dictionary :=
  (op.name, op.operands, op.attributes)

/-- Two operations have one content when name, operands and attributes agree. -/
theorem Operation.content_eq {a b : Operation} : a.content = b.content ↔
    a.name = b.name ∧ a.operands = b.operands ∧ a.attributes = b.attributes := by
  simp [content]

/-- Whether an operation may be merged with an earlier one at the top. -/
def Program.isCopy (p : Program) (id : OpId) : Bool :=
  (p.op id).isMergeable && (p.body.roots.takeWhile (· ≠ id)).any fun other =>
    (p.op other).isMergeable && decide ((p.op other).content = (p.op id).content)

/-- An operation is a copy when a mergeable operation of equal content stands before it. -/
theorem Program.isCopy_iff : p.isCopy id = true ↔ (p.op id).isMergeable = true ∧
    ∃ other ∈ p.body.roots.takeWhile (· ≠ id),
      (p.op other).isMergeable = true ∧ (p.op other).content = (p.op id).content := by
  simp [isCopy]

/-- What has been seen has the content of what may be merged among the operations so far. -/
def Program.Seen (p : Program) (done : List OpId) (seen : List Operation) : Prop :=
  ∀ content, (∃ other ∈ seen, other.content = content) ↔
    ∃ id ∈ done, (p.op id).isMergeable = true ∧ (p.op id).content = content

/-- One step of merging erases a copy and remembers what is no copy. -/
theorem mergeOne_runs {done rest : List OpId} {seen : List Operation} (hp : p.WellFormed)
    (hsplit : p.body.roots = done ++ id :: rest) (hseen : p.Seen done seen)
    (hop : r.op id = p.op id) :
    ∃ seen', runOn (mergeOne seen id) r = (.ok seen', if p.isCopy id then r.erase id else r) ∧
      p.Seen (done ++ [id]) seen' := by
  have hfresh : id ∉ done := fun hmem => by
    have hnodup := hp.distinct.nodup_roots
    rw [hsplit] at hnodup
    exact (List.nodup_append.1 hnodup).2.2 id hmem id List.mem_cons_self rfl
  have hbefore : p.body.roots.takeWhile (· ≠ id) = done := by
    rw [hsplit, Program.takeWhile_ne_append hfresh]
  have hany : (seen.any fun other => other.name == (p.op id).name &&
      other.operands == (p.op id).operands && other.attributes == (p.op id).attributes) = true ↔
      ∃ j ∈ done, (p.op j).isMergeable = true ∧ (p.op j).content = (p.op id).content := by
    rw [← hseen, List.any_eq_true]
    simp only [Operation.content_eq, Bool.and_eq_true, beq_iff_eq, and_assoc]
  have hcopy : p.isCopy id = true ↔ (p.op id).isMergeable = true ∧
      ∃ j ∈ done, (p.op j).isMergeable = true ∧ (p.op j).content = (p.op id).content := by
    rw [Program.isCopy_iff, hbefore]
  rw [mergeOne, runOn_bind, runOn_get]
  simp only [hop]
  by_cases hmergeable : (p.op id).isMergeable = true
  · rw [hmergeable]
    by_cases hequal : ∃ j ∈ done, (p.op j).isMergeable = true ∧ (p.op j).content = (p.op id).content
    · -- The operation has the content of one that has been seen.
      rw [if_pos (hcopy.2 ⟨hmergeable, hequal⟩), if_neg (by simp), if_pos (hany.2 hequal)]
      refine ⟨seen, bind_ok.2 ⟨(), _, runOn_erase id r, rfl⟩, fun content =>
        (hseen content).trans ?_⟩
      simp only [List.mem_append, List.mem_singleton, or_and_right, exists_or, exists_eq_left]
      exact (or_iff_left_of_imp fun h => h.2 ▸ hequal).symm
    · rw [if_neg fun h => hequal (hcopy.1 h).2, if_neg (by simp), if_neg fun h => hequal (hany.1 h)]
      refine ⟨p.op id :: seen, by simp, fun content => ?_⟩
      rw [List.exists_mem_cons_iff, hseen content]
      simp only [List.mem_append, List.mem_singleton, or_and_right, exists_or, exists_eq_left,
        hmergeable, true_and]
      exact or_comm
  · rw [if_neg fun h => hmergeable (hcopy.1 h).1, if_pos (by simpa using hmergeable)]
    refine ⟨seen, rfl, fun content => (hseen content).trans ?_⟩
    simp only [List.mem_append, List.mem_singleton, or_and_right, exists_or, exists_eq_left,
      hmergeable, false_and, or_false, Bool.false_eq_true]

/-- Copies are merged, whatever they are copies of. -/
theorem mergeEqual_runs (hp : p.WellFormed) : ∃ q, runOn mergeEqual p = (.ok (), q) ∧
    p.PrunedTop p.isCopy q ∧ ((∀ id ∈ p.body.roots, p.isCopy id = false) → q = p) := by
  obtain ⟨seen, q, hrun, hq⟩ := foldlM_prunedTop (P := p.isCopy) (f := mergeOne) (a := [])
    (J := p.Seen) hp (fun content => by simp) fun done id rest hsplit seen r hseen hop =>
      mergeOne_runs hp hsplit hseen hop
  exact ⟨q, get_bind_ok.2 (bind_ok.2 ⟨seen, q, hrun, rfl⟩), hq⟩

/-- Merging erases exactly the copies. -/
theorem mergeEqual_ok (hp : p.WellFormed) (h : runOn mergeEqual p = (.ok (), q)) :
    p.PrunedTop p.isCopy q := by
  obtain ⟨q', hrun, hq, -⟩ := mergeEqual_runs hp
  obtain rfl : q' = q := (Prod.mk.inj (hrun.symm.trans h)).2
  exact hq

/-- Before an element of a filtered list stands only what is before it in the whole list. -/
theorem mem_takeWhile_of_filter {l : List OpId} {P : OpId → Bool} {x y : OpId} (hx : P x = true)
    (h : y ∈ (l.filter P).takeWhile (· ≠ x)) : y ∈ l.takeWhile (· ≠ x) := by
  induction l with
  | nil => exact h
  | cons a l ih =>
      by_cases hax : a = x
      · rw [List.filter_cons_of_pos (hax ▸ hx), List.takeWhile_cons_of_neg (by simp [hax])] at h
        cases h
      · rw [List.takeWhile_cons_of_pos (by simp [hax])]
        by_cases ha : P a = true
        · rw [List.filter_cons_of_pos ha, List.takeWhile_cons_of_pos (by simp [hax])] at h
          rcases List.mem_cons.1 h with rfl | h
          · exact List.mem_cons_self
          · exact List.mem_cons_of_mem _ (ih h)
        · rw [List.filter_cons_of_neg ha] at h
          exact List.mem_cons_of_mem _ (ih h)

/-- Without copies there is nothing left to merge. -/
theorem Program.PrunedTop.not_isCopy (h : p.PrunedTop p.isCopy q) :
    ∀ id ∈ q.body.roots, q.isCopy id = false := fun id hid => by
  rw [h.roots] at hid
  have hnot := (List.mem_filter.1 hid).2
  refine Bool.eq_false_iff.2 fun hcopy => ?_
  obtain ⟨hmergeable, other, hother, hequal⟩ := isCopy_iff.1 hcopy
  rw [h.roots] at hother
  rw [h.op] at hmergeable
  rw [h.op, h.op] at hequal
  rw [isCopy_iff.2 ⟨hmergeable, other, mem_takeWhile_of_filter hnot hother, hequal⟩] at hnot
  cases hnot

/-- The first operation at the top with a content that may be merged is no copy. -/
theorem Program.exists_not_isCopy (hid : id ∈ p.body.roots)
    (hmergeable : (p.op id).isMergeable = true) :
    ∃ first ∈ p.body.roots, p.isCopy first = false ∧ (p.op first).isMergeable = true ∧
      (p.op first).content = (p.op id).content := by
  let P := fun j => (p.op j).isMergeable && decide ((p.op j).content = (p.op id).content)
  obtain ⟨first, hfirst⟩ := Option.isSome_iff_exists.1
    (List.find?_isSome.2 ⟨id, hid, (by simp [P, hmergeable] : P id = true)⟩)
  obtain ⟨hP, A, B, hsplit, hbefore⟩ := List.find?_eq_some_iff_append.1 hfirst
  simp only [P, Bool.and_eq_true, decide_eq_true_eq] at hP
  refine ⟨first, List.mem_of_find?_eq_some hfirst, Bool.eq_false_iff.2 fun hcopy => ?_, hP⟩
  obtain ⟨-, other, hother, hmergeable, hequal⟩ := isCopy_iff.1 hcopy
  rw [hsplit, takeWhile_ne_append fun hmem => by simpa [P, hP] using hbefore first hmem] at hother
  have := hbefore other hother
  simp [P, hmergeable, hequal, hP.2] at this

/-! ### Functions stay -/

/-- A program that has lost some operations at the top, but none of those with a property. -/
structure Program.KeepsTop (p : Program) (P : Operation → Bool) (q : Program) : Prop where
  wellFormed : q.WellFormed
  op : ∀ id, q.op id = p.op id
  trees : ∀ t ∈ p.body.trees, P (p.op t.1) = true → t ∈ q.body.trees
  walk : ∀ id ∈ q.walk, id ∈ p.walk

/-- Keeping what is at the top is transitive, when the second step keeps less. -/
theorem Program.KeepsTop.trans {P Q : Operation → Bool} {r : Program} (h : p.KeepsTop P q)
    (h' : q.KeepsTop Q r) (hPQ : ∀ op, Q op = true → P op = true) : p.KeepsTop Q r where
  wellFormed := h'.wellFormed
  op id := by rw [h'.op, h.op]
  trees t ht hQ := h'.trees t (h.trees t ht (hPQ _ hQ)) (by rwa [h.op])
  walk id hid := h.walk id (h'.walk id hid)

/-- Operations with a property stay at the top if none of those that are lost has it. -/
theorem Program.PrunedTop.keepsTop {Q : OpId → Bool} {P : Operation → Bool} (h : p.PrunedTop Q q)
    (hp : p.WellFormed) (hPQ : ∀ id, Q id = true → P (p.op id) = false) : p.KeepsTop P q where
  wellFormed := h.wellFormed hp
  op := h.op
  trees t ht hP := by
    rw [h.trees]
    refine List.mem_filter.2 ⟨ht, ?_⟩
    rw [Bool.not_eq_true']
    refine Bool.eq_false_iff.2 fun hQ => ?_
    rw [hPQ t.1 hQ] at hP
    cases hP
  walk id hid := h.walk_sublist.subset hid

/-- What has a region is never unused. -/
theorem Operation.not_isUnused_of_hasRegion {op : Operation} (h : op.hasRegion = true)
    (called : List String) : op.isUnused called = false := by
  simp [isUnused, isDeclaration, h]

/-- A program in which declarations were dropped keeps its functions with a body. -/
theorem Program.PrunedTop.keepsTop_of_isUnused {called : List String}
    (h : p.PrunedTop (fun id => (p.op id).isUnused called) q) (hp : p.WellFormed) :
    p.KeepsTop (·.hasRegion) q :=
  h.keepsTop hp fun id hunused => Bool.eq_false_iff.2 fun hregion => by
    rw [Operation.not_isUnused_of_hasRegion hregion] at hunused
    cases hunused

/-- Terminators are dropped with all below them, and then functions with a body stay. -/
theorem dropUnused_keeps (hp : p.WellFormed) (hlive : ∀ id ∈ p.walk, p.isLive id = true)
    (h : runOn dropUnused p = (.ok (), q)) :
    ∃ r, p.Pruned (fun id => (p.op id).isTerminator) r ∧ r.KeepsTop (·.hasRegion) q := by
  obtain ⟨r, hloop, hq⟩ := dropUnused_ok h
  have hr := forM_pruned (P := Operation.isTerminator) hp hlive
    (fun id r s hstep => dropTerminator_ok hstep) hloop
  exact ⟨r, hr, (hq (hr.wellFormed hp)).keepsTop_of_isUnused (hr.wellFormed hp)⟩

/-- Without terminators only declarations are dropped. -/
theorem dropUnused_keeps_of_none (hp : p.WellFormed)
    (hnone : ∀ id ∈ p.walk, (p.op id).isTerminator = false)
    (h : runOn dropUnused p = (.ok (), q)) : p.KeepsTop (·.hasRegion) q :=
  (dropUnused_ok_of_none hp hnone h).keepsTop_of_isUnused hp

/-- Whether an operation is a function of either stage of lowering, with a body. -/
def Operation.isDefinition (op : Operation) : Bool :=
  (op.is "func.func" || op.is "llvm.func") && op.hasRegion

/-- A definition has a region. -/
theorem Operation.hasRegion_of_isDefinition {op : Operation} (h : op.isDefinition = true) :
    op.hasRegion = true := by
  rw [isDefinition, Bool.and_eq_true] at h
  exact h.2

/-- Definitions are never merged. -/
theorem Operation.not_isMergeable_of_isDefinition {op : Operation} (h : op.isDefinition = true) :
    op.isMergeable = false := by
  simp only [isDefinition, is, Bool.and_eq_true, Bool.or_eq_true, beq_iff_eq] at h
  obtain ⟨hname | hname, hregion⟩ := h <;>
    simp [isMergeable, isDeclaration, is, hname, hregion]

/-- Functions with a body are never merged. -/
theorem mergeEqual_keeps (hp : p.WellFormed) (h : runOn mergeEqual p = (.ok (), q)) :
    p.KeepsTop Operation.isDefinition q :=
  (mergeEqual_ok hp h).keepsTop hp fun id hcopy => Bool.eq_false_iff.2 fun hdefinition => by
    rw [Program.isCopy_iff, Operation.not_isMergeable_of_isDefinition hdefinition] at hcopy
    exact absurd hcopy.1 Bool.false_ne_true

/-! ### Calls -/

/-- Whether an operation is a function of either stage of lowering. -/
def Operation.isFunction (op : Operation) : Bool :=
  op.is "func.func" || op.is "llvm.func"

/-- Whether there is a function at the top with a symbol. -/
def Program.HasFunction (p : Program) (symbol : String) : Prop :=
  ∃ f ∈ p.body.roots, (p.op f).isFunction = true ∧ (p.op f).operandSymbol? 0 = some symbol

/-- A declaration is a function. -/
theorem Operation.isFunction_of_isDeclaration {op : Operation} (h : op.isDeclaration = true) :
    op.isFunction = true := by
  rw [isDeclaration, Bool.and_eq_true] at h
  exact h.1

/-- A function is no call. -/
theorem Operation.not_isCall_of_isFunction {op : Operation} (h : op.isFunction = true) :
    op.isCall = false := by
  simp only [isFunction, is, Bool.or_eq_true, beq_iff_eq] at h
  rcases h with h | h <;> simp [isCall, is, h]

/-- A function is no terminator. -/
theorem Operation.not_isTerminator_of_isFunction {op : Operation} (h : op.isFunction = true) :
    op.isTerminator = false := by
  simp only [isFunction, is, Bool.or_eq_true, beq_iff_eq] at h
  rcases h with h | h <;> simp [isTerminator, is, h]

/-- Terminators that are dropped take no function at the top with them. -/
theorem Program.Pruned.hasFunction {symbol : String}
    (h : p.Pruned (fun id => (p.op id).isTerminator) q) (hf : p.HasFunction symbol) :
    q.HasFunction symbol := by
  obtain ⟨f, hf, hfunction, hsymbol⟩ := hf
  refine ⟨f, ?_, by rwa [h.op], by rwa [h.op]⟩
  obtain ⟨c, hc⟩ := Forest.mem_roots.1 hf
  rw [h.body, Forest.roots_eq, Forest.trees_prune, List.map_map]
  exact List.mem_map.2 ⟨(f, c), List.mem_filter.2 ⟨hc, by
    simp [Operation.not_isTerminator_of_isFunction hfunction]⟩, rfl⟩

/-- A function that a call names is not dropped for want of a call. -/
theorem Program.PrunedTop.hasFunction_of_called {symbol : String} {called : List String}
    (h : p.PrunedTop (fun id => (p.op id).isUnused called) q) (hcalled : symbol ∈ called)
    (hf : p.HasFunction symbol) : q.HasFunction symbol := by
  obtain ⟨f, hf, hfunction, hsymbol⟩ := hf
  refine ⟨f, ?_, by rwa [h.op], by rwa [h.op]⟩
  rw [h.roots]
  exact List.mem_filter.2 ⟨hf, by simp [Operation.isUnused, hsymbol, hcalled]⟩

/-- A function that is merged leaves the one that it equals. -/
theorem Program.PrunedTop.hasFunction_of_isCopy {symbol : String} (h : p.PrunedTop p.isCopy q)
    (hf : p.HasFunction symbol) : q.HasFunction symbol := by
  obtain ⟨f, hf, hfunction, hsymbol⟩ := hf
  have hstays : ∀ g ∈ p.body.roots, p.isCopy g = false → g ∈ q.body.roots := fun g hg hnot => by
    rw [h.roots]
    exact List.mem_filter.2 ⟨hg, by simp [hnot]⟩
  rcases hcopy : p.isCopy f with _ | _
  · exact ⟨f, hstays f hf hcopy, by rwa [h.op], by rwa [h.op]⟩
  · obtain ⟨g, hg, hnot, -, hcontent⟩ := Program.exists_not_isCopy hf (isCopy_iff.1 hcopy).1
    obtain ⟨hname, hoperands, -⟩ := Operation.content_eq.1 hcontent
    refine ⟨g, hstays g hg hnot, ?_, ?_⟩
    · rw [h.op, Operation.isFunction, Operation.is, Operation.is, hname]
      exact hfunction
    · rw [h.op, Operation.operandSymbol?, hoperands]
      exact hsymbol

/-- A declaration has no call below it, so that the calls stay when it is dropped. -/
theorem Program.PrunedTop.mem_calledSymbols {symbol : String} {called : List String}
    (h : p.PrunedTop (fun id => (p.op id).isUnused called) q)
    (hregions : ∀ t ∈ p.body.trees, (p.op t.1).hasRegion = false → t.2 = .nil)
    (hsymbol : symbol ∈ p.calledSymbols) : symbol ∈ q.calledSymbols := by
  obtain ⟨call, hcall, hsymbol⟩ := List.mem_filterMap.1 hsymbol
  obtain ⟨hmem, hcall⟩ := List.mem_filter.1 hcall
  refine List.mem_filterMap.2 ⟨call, List.mem_filter.2 ⟨?_, by rwa [h.op]⟩, by rwa [h.op]⟩
  obtain ⟨t, ht, hin⟩ := Forest.mem_preorder_iff_trees.1 hmem
  refine Forest.mem_preorder_iff_trees.2 ⟨t, ?_, hin⟩
  rw [h.trees]
  refine List.mem_filter.2 ⟨ht, ?_⟩
  rw [Bool.not_eq_true']
  refine Bool.eq_false_iff.2 fun hunused => ?_
  rw [Operation.isUnused, Bool.and_eq_true, Bool.and_eq_true] at hunused
  have hdeclaration := hunused.1.1
  rcases hin with rfl | hin
  · rw [Operation.not_isCall_of_isFunction (Operation.isFunction_of_isDeclaration hdeclaration)]
      at hcall
    cases hcall
  · rw [Operation.isDeclaration, Bool.and_eq_true, Bool.not_eq_true'] at hdeclaration
    rw [hregions t ht hdeclaration.2] at hin
    cases hin

/-- What is used stays so when more symbols are called. -/
theorem Operation.not_isUnused_mono {op : Operation} {called called' : List String}
    (hcalled : ∀ symbol ∈ called, symbol ∈ called') (h : op.isUnused called = false) :
    op.isUnused called' = false := by
  refine Bool.eq_false_iff.2 fun hunused => ?_
  rw [isUnused, Bool.and_eq_true] at hunused
  rw [isUnused, hunused.1, Bool.true_and] at h
  rcases hsymbol : op.operandSymbol? 0 with _ | symbol
  · rw [hsymbol] at h
    cases h
  · rw [hsymbol] at hunused h
    simp only [Bool.not_eq_true', Bool.not_eq_false', List.contains_iff_mem] at hunused h
    simp [hcalled symbol h] at hunused

/-- At the top, what has no region has nothing below it. -/
theorem Program.OwnsRegions.tree_eq_nil (h : p.OwnsRegions) (hp : p.WellFormed)
    {t : OpId × Forest OpId} (ht : t ∈ p.body.trees) (hregion : (p.op t.1).hasRegion = false) :
    t.2 = .nil := by
  have hnone : p.children (some t.1) = [] := Classical.byContradiction fun hne => by
    rw [h t.1 hne] at hregion
    cases hregion
  rw [← Program.below_of_below? (Forest.below?_of_mem_trees hp.distinct ht)]
  exact Program.below_eq_nil hnone

/-- When terminators and unused declarations are dropped, there is nothing more to drop. -/
theorem dropUnused_again (hp : p.WellFormed) (hregions : p.OwnsRegions)
    (hr : p.Pruned (fun id => (p.op id).isTerminator) r)
    (hq : r.PrunedTop (fun id => (r.op id).isUnused r.calledSymbols) q) :
    runOn dropUnused q = (.ok (), q) := by
  refine dropUnused_idle (hq.wellFormed (hr.wellFormed hp)) (fun id hid => ?_) fun id hid => ?_
  · have hmem := hq.walk_sublist.subset hid
    rw [Program.walk, hr.body] at hmem
    rw [hq.op, hr.op]
    exact (Forest.mem_preorder_of_prune hmem).2
  · rw [hq.roots] at hid
    rw [hq.op]
    refine Operation.not_isUnused_mono (fun symbol => hq.mem_calledSymbols fun t ht hregion => ?_)
      (by simpa using (List.mem_filter.1 hid).2)
    rw [hr.body, Forest.trees_prune] at ht
    obtain ⟨u, hu, rfl⟩ := List.mem_map.1 ht
    rw [hregions.tree_eq_nil hp (List.mem_of_mem_filter hu) (by rwa [hr.op] at hregion)]
    rfl

/-- **Cleaning up.** When terminators and unused declarations are dropped from a program, it loses
the trees of the terminators and then, at the top, the private declarations whose symbol no call
that is left names. When copies are merged, it loses at the top what may be merged and has the
content of an earlier operation that may be. The others stay as they are, in their order, and
doing either once more does nothing. After both, a call that is left has a function at the top if
it had one before. -/
theorem cleanUp_fixpoint (hp : p.WellFormed) (hregions : p.OwnsRegions)
    (hlive : ∀ id ∈ p.walk, p.isLive id = true) :
    (∃ q, runOn dropUnused p = (.ok (), q) ∧
      q.body.trees = (p.body.prune fun id => (p.op id).isTerminator).trees.filter (fun t =>
        !(p.op t.1).isUnused p.neededSymbols) ∧
      (∀ id, q.op id = p.op id) ∧ runOn dropUnused q = (.ok (), q) ∧
      ∃ r, runOn mergeEqual q = (.ok (), r) ∧ ∀ call ∈ r.walk, (r.op call).isCall = true →
        ∀ symbol, (r.op call).operandSymbol? 0 = some symbol → p.HasFunction symbol →
          r.HasFunction symbol) ∧
    ∃ q, runOn mergeEqual p = (.ok (), q) ∧
      q.body.trees = p.body.trees.filter (fun t => !p.isCopy t.1) ∧
      (∀ id, q.op id = p.op id) ∧ runOn mergeEqual q = (.ok (), q) := by
  constructor
  · obtain ⟨s, q, hrun, hs, hq⟩ := dropUnused_runs hp hlive
    have hneeded : s.calledSymbols = p.neededSymbols := hs.calledSymbols
    have hswf := hs.wellFormed hp
    obtain ⟨r, hmerge, hr, -⟩ := mergeEqual_runs (hq.wellFormed hswf)
    refine ⟨q, hrun, ?_, fun id => (hq.op id).trans (hs.op id),
      dropUnused_again hp hregions hs hq, r, hmerge, fun call hmem hcall symbol hsymbol hf => ?_⟩
    · rw [hq.trees, hs.body, hneeded]
      simp only [hs.op]
    · -- The call was there when the symbols of the calls were collected.
      have hcalled : symbol ∈ s.calledSymbols :=
        List.mem_filterMap.2 ⟨call, List.mem_filter.2 ⟨hq.walk_sublist.subset
          (hr.walk_sublist.subset hmem), by rwa [← hq.op, ← hr.op]⟩, by rwa [← hq.op, ← hr.op]⟩
      exact hr.hasFunction_of_isCopy (hq.hasFunction_of_called hcalled (hs.hasFunction hf))
  · obtain ⟨q, hrun, hq, -⟩ := mergeEqual_runs hp
    obtain ⟨r, hagain, -, hidle⟩ := mergeEqual_runs (hq.wellFormed hp)
    obtain rfl := hidle hq.not_isCopy
    exact ⟨r, hrun, hq.trees, hq.op, hagain⟩

/-- A private declaration of a function. -/
def privateFunction (symbol : String) : Operation where
  name := "func.func"
  operands := [.symbol symbol]
  attributes := .ofList [("sym_visibility", .str "private")]

/-- A call, a call below a terminator, and declarations for both, of which one comes twice. -/
def cleanUpProgram : Program :=
  .ofForest .empty <|
    .cons { name := "func.func", operands := [.symbol "main"], hasRegion := true }
      (.cons { name := "func.call", operands := [.symbol "f"] } .nil
        (.cons { name := "scf.yield", hasRegion := true }
          (.single { name := "func.call", operands := [.symbol "g"] } .nil)
          (.single { name := "aie.end" } .nil)))
      (.leaves [privateFunction "g", privateFunction "f", privateFunction "f"] .nil)

/-- The call that is left has the first of the equal declarations, and the others are gone. -/
theorem cleanUp_fixpoint_ofForest : ∃ q r, runOn dropUnused cleanUpProgram = (.ok (), q) ∧
    runOn dropUnused q = (.ok (), q) ∧ runOn mergeEqual q = (.ok (), r) ∧
    r.contents.preorder =
      [{ name := "func.func", operands := [.symbol "main"], hasRegion := true },
        { name := "func.call", operands := [.symbol "f"] }, privateFunction "f"] ∧
    ∀ call ∈ r.walk, (r.op call).isCall = true → ∀ symbol,
      (r.op call).operandSymbol? 0 = some symbol → cleanUpProgram.HasFunction symbol →
        r.HasFunction symbol := by
  have hp : cleanUpProgram.WellFormed := Program.wellFormed_ofForest _ _
  have hregions : cleanUpProgram.OwnsRegions := (hp.tree rfl).ownsRegions (by decide +kernel)
  obtain ⟨⟨q, hq, -, -, hagain, r, hr, hcalls⟩, -⟩ :=
    cleanUp_fixpoint hp hregions (by decide +kernel)
  refine ⟨q, r, hq, hagain, hr, ?_, hcalls⟩
  obtain rfl : (runOn dropUnused cleanUpProgram).2 = q := by rw [hq]
  obtain rfl : (runOn mergeEqual (runOn dropUnused cleanUpProgram).2).2 = r := by rw [hr]
  decide +kernel

end TileFlow
