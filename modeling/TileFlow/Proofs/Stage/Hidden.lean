import TileFlow.Proofs.Stage.Values

/-!
# What the canonical pipeline leaves in place

An operation is lost without being erased itself if it is below one that is. Where no operation of
some kinds is below one that may be erased, edits keep it so as long as they give these kinds only
above an operation that has one of them; and then what edits lose is what they erase.

## Main definitions

* `Program.HidesNone`: no operation of some kinds is below one of some others.
* `Program.Unhidden`: an operation below none of some kinds.
* `EditRule.Exposes`: edits that give the kinds only above an operation that has one of them.
* `EditRule.LeavesOperands`: edits that do not touch the operands of operations with a name.
* `changedNames`: the operations whose operands, or names, the pipeline changes.

## Main results

* `Program.HidesNone.edits`: nothing of the kinds gets below an operation that may be erased.
* `Program.Unhidden.edits`: what is in the open stays.
-/

namespace TileFlow

variable {rule : EditRule} {p q : Program} {names kinds : List String}

/-- Whether no operation whose name is among `kinds` is below one whose name is among `names`. -/
def Program.HidesNone (p : Program) (names kinds : List String) : Prop :=
  ∀ x ∈ p.walk, (p.op x).name ∈ names → ∀ id ∈ p.walkIn x, (p.op id).name ∉ kinds

instance : Decidable (p.HidesNone names kinds) :=
  inferInstanceAs (Decidable (∀ x ∈ p.walk, (p.op x).name ∈ names → ∀ id ∈ p.walkIn x,
    (p.op id).name ∉ kinds))

/-- Edits that give the names of some kinds only above an operation that has one of them. -/
structure EditRule.Exposes (rule : EditRule) (kinds : List String) : Prop where
  creates : ∀ p parent op, rule.creates p parent op → op.name ∈ kinds →
    ∃ x, (p.op x).name ∈ kinds ∧ p.Above x parent
  changes : ∀ p id op, rule.changes p id op → op.name ∈ kinds → (p.op id).name ∈ kinds

/-- Edits that give none of the names. -/
theorem EditRule.Names.exposes (h : rule.Names names) (hkinds : ∀ name ∈ names, name ∉ kinds) :
    rule.Exposes kinds where
  creates p parent op hop hmem := absurd hmem (hkinds _ (h.creates p parent op hop))
  changes p id op hop hmem := by
    rcases h.changes p id op hop with heq | hname
    · exact heq ▸ hmem
    · exact absurd hmem (hkinds _ hname)

/-- Rules that each expose only some kinds do so together. -/
theorem EditRule.any_exposes {rules : List EditRule} (h : ∀ rule ∈ rules, rule.Exposes kinds) :
    (any rules).Exposes kinds where
  creates p parent op := fun ⟨rule, hrule, hop⟩ => (h rule hrule).creates p parent op hop
  changes p id op := fun ⟨rule, hrule, hop⟩ => (h rule hrule).changes p id op hop

namespace Program

/-- An operation that is created is hidden only if what it was created above is. -/
theorem HidesNone.created {parent : Option OpId} {op : Operation} (h : p.HidesNone names kinds)
    (hp : p.Sound) (habove : op.name ∈ kinds → ∃ x, (p.op x).name ∈ kinds ∧ p.Above x parent)
    (hq : p.Created parent op q) : q.HidesNone names kinds := by
  intro x hx hname id hid hkind
  rcases (hq.walk x).1 hx with hxp | ⟨rfl, hholds⟩
  · rw [(hq.old x (hp.created x hxp)).name] at hname
    rcases (hq.walkIn x hxp id).1 hid with hid | ⟨rfl, b, hb, hbx⟩
    · rw [(hq.old id (hp.lt_size_of_walkIn hid)).name] at hkind
      exact h x hxp hname id hid hkind
    · rw [hq.header.name] at hkind
      obtain ⟨y, hy, hby⟩ := habove hkind
      have hyx : y ∈ p.walkIn x := by
        rcases hbx with rfl | hbx
        · exact hby b hb hxp
        · exact hp.walkIn_trans hxp hbx (hby b hb (hp.mem_walk_of_walkIn hxp hbx))
      exact h x hxp hname y hyx hy
  · rw [hq.leaf hholds] at hid
    cases hid

/-- No operation with values is hidden after an edit that keeps these values and exposes only some
kinds. -/
theorem HidesNone.edit (h : p.HidesNone names kinds) (hrule : rule.KeepsValues names)
    (hexposes : rule.Exposes kinds) (hp : p.Sound) (hedit : p.Edit rule q) :
    q.HidesNone names kinds := by
  cases hedit with
  | create parent i op hop =>
      exact h.created hp (hexposes.creates p parent op hop) (created_insertAt hp parent i op)
  | change j f hj hop =>
      exact fun x hx hname id hid hkind => h x hx
        (of_op_modify (K := fun op => op.name ∈ names) hj (hrule.gives p j _ hop) hname) id hid
        (of_op_modify (K := fun op => op.name ∈ kinds) hj (hexposes.changes p j _ hop) hkind)
  | erase y hy =>
      have hcut := cut_erase hp hy
      intro x hx hname id hid hkind
      rw [hcut.op] at hname hkind
      exact h x ((hcut.walk x).1 hx).1 hname id ((hcut.walkIn x hx id).1 hid).1 hkind

/-- Nothing of the kinds gets below an operation that may be erased. -/
theorem HidesNone.edits (h : p.HidesNone names kinds) (hrule : rule.KeepsValues names)
    (hexposes : rule.Exposes kinds) (hp : p.Sound) (hedits : p.Edits rule q) :
    q.HidesNone names kinds := by
  induction hedits with
  | refl => exact h
  | tail hr hedit ih => exact ih.edit hrule hexposes (Edits.sound hr hp) hedit

/-- A device that is put around a program has none of the names. -/
theorem Wraps.hidesNone (h : p.Wraps q) (hnone : p.HidesNone names kinds) (hp : p.Sound)
    (hdevice : defaultDevice.name ∉ names) : q.HidesNone names kinds := by
  intro x hx hname id hid
  rcases h.walk x hx with hxp | hdefault
  · rw [h.op x (hp.created x hxp)] at hname
    rw [h.walkIn x hxp] at hid
    rw [h.op id (hp.lt_size_of_walkIn hid)]
    exact hnone x hxp hname id hid
  · rw [hdefault] at hname
    exact absurd hname hdevice

end Program

/-- What the source hides, its program in a device hides. -/
theorem LoweringRun.base_hidesNone (c : LoweringRun p q)
    (hkinds : ∀ name ∈ affineNames.map (·.2), name ∉ kinds)
    (h : p.HidesNone discardedNames kinds) : c.base.HidesNone discardedNames kinds :=
  have haffine := h.edits EditRule.affine_keepsValues (EditRule.affine_names.exposes hkinds)
    c.sound c.base_ok.1
  c.base_ok.2.1.hidesNone haffine (c.base_ok.1.sound c.sound) (by decide)

/-! ### Operations in the open -/

/-- An operation of the body that has none of some names, and is below no operation with one. -/
structure Program.Unhidden (p : Program) (names : List String) (id : OpId) : Prop where
  mem : id ∈ p.walk
  name : (p.op id).name ∉ names
  above : ∀ x ∈ p.walk, (p.op x).name ∈ names → id ∉ p.walkIn x

namespace Program

variable {id x : OpId}

/-- An operation that is not hidden stays so after an edit that keeps values. -/
theorem Unhidden.edit (h : p.Unhidden names id) (hrule : rule.KeepsValues names) (hp : p.Sound)
    (hedit : p.Edit rule q) : q.Unhidden names id := by
  have hlt := hp.created id h.mem
  cases hedit with
  | create parent i op =>
      have hnew := created_insertAt hp parent i op
      refine ⟨(hnew.walk id).2 (.inl h.mem), (hnew.old id hlt).name ▸ h.name,
        fun y hy hname hid => ?_⟩
      rcases (hnew.walk y).1 hy with hyp | ⟨rfl, hholds⟩
      · rw [(hnew.old y (hp.created y hyp)).name] at hname
        rcases (hnew.walkIn y hyp id).1 hid with hid | ⟨rfl, -⟩
        · exact h.above y hyp hname hid
        · exact Nat.lt_irrefl _ hlt
      · rw [hnew.leaf hholds] at hid
        cases hid
  | change j f hj hop =>
      have hgives : ∀ i, ((p.modify j f).op i).name ∈ names → (p.op i).name ∈ names := fun i =>
        of_op_modify (K := fun op => op.name ∈ names) hj (hrule.gives p j _ hop)
      exact ⟨h.mem, fun hname => h.name (hgives id hname),
        fun y hy hname => h.above y hy (hgives y hname)⟩
  | erase y hy hop =>
      have hcut := cut_erase hp hy
      have hname := hrule.erases p y hop
      have hmem : id ∈ (p.erase y).walk := (hcut.walk id).2 ⟨h.mem, by
        rintro rfl
        exact h.name hname, fun hin => h.above y (hp.mem_walk_of_below hin h.mem) hname hin⟩
      refine ⟨hmem, hcut.op id ▸ h.name, fun z hz hzname hid => ?_⟩
      rw [hcut.op] at hzname
      exact h.above z ((hcut.walk z).1 hz).1 hzname ((hcut.walkIn z hz id).1 hid).1

/-- An operation in the open is not lost, and stays in the open. -/
theorem Unhidden.edits (h : p.Unhidden names id) (hrule : rule.KeepsValues names) (hp : p.Sound)
    (hedits : p.Edits rule q) : q.Unhidden names id := by
  induction hedits with
  | refl => exact h
  | tail hr hedit ih => exact ih.edit hrule (Edits.sound hr hp) hedit

/-- Next to an operation that is not hidden, a new one is in the open. -/
theorem HidesNone.created_unhidden {parent : Option OpId} {op : Operation}
    (h : p.HidesNone names kinds) (hp : p.Sound) (hx : (p.op x).name ∈ kinds)
    (habove : p.Above x parent) (hholds : p.Holds parent) (hname : op.name ∉ names)
    (hq : p.Created parent op q) : q.Unhidden names p.slots.size := by
  refine ⟨(hq.walk _).2 (.inr ⟨rfl, hholds⟩), hq.header.name ▸ hname, fun y hy hyname hid => ?_⟩
  rcases (hq.walk y).1 hy with hyp | ⟨rfl, -⟩
  · rw [(hq.old y (hp.created y hyp)).name] at hyname
    rcases (hq.walkIn y hyp _).1 hid with hid | ⟨-, b, rfl, hb⟩
    · exact Nat.lt_irrefl _ (hp.lt_size_of_walkIn hid)
    · have hxb := habove b rfl (hholds b rfl)
      refine h y hyp hyname x ?_ hx
      rcases hb with rfl | hb
      · exact hxb
      · exact hp.walkIn_trans hyp hb hxb
  · rw [hq.leaf hholds] at hid
    cases hid

end Program

/-! ### Operands that stay -/

/-- Edits that change no operand of the operations with a name, and give it to none and take it from
none. -/
structure EditRule.LeavesOperands (rule : EditRule) (name : String) : Prop where
  is_eq : ∀ p id op, rule.changes p id op → op.is name = (p.op id).is name
  operands : ∀ p id op, rule.changes p id op → (p.op id).is name = true →
    op.operands = (p.op id).operands

/-- A rule that leaves operands leaves them too when it erases fewer operations. -/
theorem EditRule.LeavesOperands.without {name : String} (h : rule.LeavesOperands name)
    (other : String) : (rule.without other).LeavesOperands name :=
  ⟨h.is_eq, h.operands⟩

/-- Rules that each leave operands do so together. -/
theorem EditRule.any_leavesOperands {rules : List EditRule} {name : String}
    (h : ∀ rule ∈ rules, rule.LeavesOperands name) : (any rules).LeavesOperands name where
  is_eq p id op := fun ⟨rule, hrule, hop⟩ => (h rule hrule).is_eq p id op hop
  operands p id op := fun ⟨rule, hrule, hop⟩ => (h rule hrule).operands p id op hop

/-- A rule that changes no operation leaves operands. -/
theorem EditRule.leavesOperands_of_unchanged {name : String}
    (changes : ∀ p id op, ¬ rule.changes p id op) : rule.LeavesOperands name where
  is_eq p id op hop := absurd hop (changes p id op)
  operands p id op hop := absurd hop (changes p id op)

/-- Renaming affine operations leaves the operands of operations with other names. -/
theorem EditRule.affine_leavesOperands {name : String}
    (hname : ∀ pair ∈ affineNames, pair.1 ≠ name ∧ pair.2 ≠ name) :
    EditRule.affine.LeavesOperands name where
  is_eq _ _ _ hop := affine_is hop hname
  operands p id op hop _ := by
    subst hop
    rcases (p.op id).renamed_affine with h | ⟨_, _, -, -, h⟩ <;> rw [h]

/-- An operation of before has a name that edits leave alone only if it had it before, and the same
operands. -/
theorem Program.Edits.operands_of_is {name : String} {id : OpId}
    (hrule : rule.LeavesOperands name) (hp : p.Sound) (h : p.Edits rule q)
    (hlt : id < p.slots.size) (hname : (q.op id).is name = true) :
    (p.op id).is name = true ∧ (q.op id).operands = (p.op id).operands := by
  have hold : (p.op id).is name = true := (h.is_eq hp hrule.is_eq hlt).symm.trans hname
  exact ⟨hold, (h.operands_eq (P := fun op => op.is name = true) hp
    (fun _ _ hab ha => (hab.is name).trans ha)
    (fun r id op hop hr => ⟨(hrule.is_eq r id op hop).trans hr, hrule.operands r id op hop hr⟩)
    hlt hold).2⟩

/-- The names of the operations whose operands, or names, the pipeline changes, and those that it
gives to them. -/
def changedNames : List String :=
  ["aie.lock", "aie.objectfifo.acquire", "aie.objectfifo.release", "aie.use_lock", "scf.for",
    "scf.if", "cf.loop", "cf.cond"]

section

variable {name : String} (hname : name ∉ changedNames)

include hname

/-- Lock identifiers leave operands alone. -/
theorem EditRule.lockIds_leavesOperands : EditRule.lockIds.LeavesOperands name where
  is_eq p id op hop := by
    obtain ⟨-, -, v, n, -, rfl⟩ := hop
    rfl
  operands p id op hop his := by
    have hne : "aie.lock" ≠ name := fun heq => hname (by simp [← heq, changedNames])
    rw [Operation.not_is_of_is hop.1 hne] at his
    cases his

/-- Lowering FIFOs leaves the operands of all but their accesses. -/
theorem EditRule.fifos_leavesOperands : EditRule.fifos.LeavesOperands name where
  is_eq p id op hop := by
    obtain ⟨fifo, locks, rfl⟩ := hop
    exact is_lowerAccess fifo locks _ fun hmem => hname (by simp_all [changedNames])
  operands p id op hop his := by
    obtain ⟨fifo, locks, rfl⟩ := hop
    exact operands_lowerAccess fifo locks (fun hmem => hname (by simp_all [changedNames])) his

/-- Lowering loops leaves operands alone. -/
theorem EditRule.structured_leavesOperands : EditRule.structured.LeavesOperands name where
  is_eq _ _ _ hop := structured_is hop fun hmem => hname (by simp_all [changedNames])
  operands p id op hop _ := by rcases hop with ⟨-, rfl⟩ | ⟨-, rfl⟩ <;> rfl

omit hname in
/-- Giving buffers addresses leaves operands alone. -/
theorem EditRule.addresses_leavesOperands : EditRule.addresses.LeavesOperands name where
  is_eq _ _ _ hop := addresses_is hop _
  operands p id op hop _ := by
    obtain ⟨-, n, -, rfl⟩ := hop
    rfl

/-- The stages that number locks and buffers leave operands alone. -/
theorem EditRule.numbering_leavesOperands : EditRule.numbering.LeavesOperands name :=
  any_leavesOperands (by
    simpa [lockIds_leavesOperands hname, fifos_leavesOperands hname] using
      leavesOperands_of_unchanged fun _ _ _ hop => hop)

/-- The stages after the FIFOs leave operands alone. -/
theorem EditRule.afterFifos_leavesOperands : EditRule.afterFifos.LeavesOperands name :=
  any_leavesOperands (by
    have hunchanged : ∀ rule ∈ [broadcasts, packets, multicasts], rule.LeavesOperands name := by
      simp only [List.mem_cons, List.not_mem_nil, or_false]
      rintro rule (rfl | rfl | rfl) <;> exact leavesOperands_of_unchanged fun _ _ _ hop => hop
    simpa [addresses_leavesOperands, structured_leavesOperands hname] using hunchanged)

/-- The stages from the lock identifiers on leave operands alone. -/
theorem EditRule.fromLockIds_leavesOperands : EditRule.fromLockIds.LeavesOperands name :=
  any_leavesOperands (by
    simp [numbering_leavesOperands hname, afterFifos_leavesOperands hname])

end

end TileFlow
