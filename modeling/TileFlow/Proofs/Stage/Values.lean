import TileFlow.Proofs.Program.Arrangement
import TileFlow.Proofs.Stage.Canonical

/-!
# Values through the canonical pipeline

The pipeline erases operations of some kinds, and with them the values that they define and those
that are defined below them. Where there are none of these, every value is defined in the end by the
operation that defined it, and places operations on the same tile.

Erasing an operation marks it and takes it out of the body, with all below it. No stage of the
canonical pipeline puts an erased operation back, so that the body of a canonical program has no
erased operation.

## Main definitions

* `Program.DefinesNone`: no value is defined in the trees of some operations.
* `EditRule.KeepsValues`: edits that erase no others.
* `EditRule.numbering`, `EditRule.afterFifos`: the edits up to the lowering of FIFOs, and after it.

## Main results

* `Program.Edits.resolves_of_definesNone`: values are kept.
* `Program.Edits.tileOf?_of_old`: without new tiles, values name those that they named before.
* `LoweringRun.base_definesNone`: the first two stages define no value in the trees that later ones
  erase.
* `Program.Edits.live`: edits keep the body live.
* `canonicalizeSource_ready`: a canonical program is a tree with unique values and a live body.
-/

/-! ## Values -/

namespace TileFlow

open TileFlow.Action

variable {rule : EditRule} {p q r : Program} {names : List String}

/-- Whether no value is defined by, or below, an operation with one of some names. -/
def Program.DefinesNone (p : Program) (names : List String) : Prop :=
  ∀ x ∈ p.walk, (p.op x).name ∈ names → ∀ id ∈ x :: p.walkIn x, (p.op id).result = none

/-- A program in which no operation with one of several names defines a value has none with fewer
names. -/
theorem Program.DefinesNone.of_cons {name : String} (h : p.DefinesNone (name :: names)) :
    p.DefinesNone names := fun x hx hname => h x hx (List.mem_cons_of_mem _ hname)

instance : Decidable (p.DefinesNone names) :=
  inferInstanceAs (Decidable (∀ x ∈ p.walk, (p.op x).name ∈ names →
    ∀ id ∈ x :: p.walkIn x, (p.op id).result = none))

/-- Edits that erase operations with some names only, give these names to no other operation, and
keep what places operations on tiles. -/
structure EditRule.KeepsValues (rule : EditRule) (names : List String) : Prop where
  place : ∀ p id op, rule.changes p id op → Program.KeepsPlace op (p.op id)
  gives : ∀ p id op, rule.changes p id op → op.name ∈ names → (p.op id).name ∈ names
  erases : ∀ p id, rule.erases p id → (p.op id).name ∈ names

/-- Rules that each keep values keep them together. -/
theorem EditRule.any_keepsValues {rules : List EditRule}
    (h : ∀ rule ∈ rules, rule.KeepsValues names) : (any rules).KeepsValues names where
  place p id op := fun ⟨rule, hrule, hop⟩ => (h rule hrule).place p id op hop
  gives p id op := fun ⟨rule, hrule, hop⟩ => (h rule hrule).gives p id op hop
  erases p id := fun ⟨rule, hrule, hop⟩ => (h rule hrule).erases p id hop

/-- Edits that neither give nor take one more name erase only operations with that one or the
others.
-/
theorem EditRule.KeepsValues.cons {name : String} (h : rule.KeepsValues names)
    (hname : ∀ p id op, rule.changes p id op → op.is name = (p.op id).is name) :
    rule.KeepsValues (name :: names) where
  place := h.place
  gives p id op hop hmem := by
    rcases List.mem_cons.1 hmem with heq | hmem
    · have his : op.is name = true := beq_iff_eq.2 heq
      exact List.mem_cons.2 (.inl (beq_iff_eq.1 ((hname p id op hop).symm.trans his)))
    · exact List.mem_cons_of_mem _ (h.gives p id op hop hmem)
  erases p id hop := List.mem_cons_of_mem _ (h.erases p id hop)

/-- A rule keeps values too when it erases fewer operations. -/
theorem EditRule.KeepsValues.without (h : rule.KeepsValues names) (name : String) :
    (rule.without name).KeepsValues names :=
  ⟨h.place, h.gives, h.erases⟩

namespace Program

/-- An operation of before has one of the names only if it had one of them. -/
theorem Edits.name_mem (hrule : rule.KeepsValues names) (hp : p.Sound) (h : p.Edits rule q)
    {id : OpId} (hlt : id < p.slots.size) (hname : (q.op id).name ∈ names) :
    (p.op id).name ∈ names :=
  h.forall_op (K := fun id op => id < p.slots.size → op.name ∈ names → (p.op id).name ∈ names) hp
    (fun _ _ _ hab hK hlt hb => hK hlt (hab.name ▸ hb))
    (fun _ _ _ hr _ _ hlt => absurd hlt (Nat.not_lt.2 (hr.size_le hp)))
    (fun r id op _ hop hK hlt hname => hK hlt (hrule.gives r id op hop hname))
    (fun _ _ _ hname => hname) id (Nat.lt_of_lt_of_le hlt (h.size_le hp)) hlt hname

/-- Edits that erase only operations in whose trees no value is defined keep the values. -/
theorem Edits.resolves_of_definesNone (hrule : rule.KeepsValues names) (hp : p.Sound)
    (hnone : p.DefinesNone names) (h : p.Edits rule q) : q.Resolves p := by
  refine h.resolves hp hrule.place fun r x hr hop id hid hlt hx => ?_
  have hev := hr.evolves hp
  have hname : x < p.slots.size → (p.op x).name ∈ names := fun hltx =>
    hr.name_mem hrule hp hltx (hrule.erases r x hop)
  rcases hx with rfl | hx
  · exact hnone id (hev.walk id hid hlt) (hname hlt) id List.mem_cons_self
  · have hxr := hev.sound.mem_walk_of_below hx hid
    obtain ⟨hltx, hxp⟩ := (hev.walkIn x hxr id hid hlt).1 hx
    exact hnone x (hev.walk x hxr hltx) (hname hltx) id (List.mem_cons_of_mem _ hxp)

/-- An operation of before still defines what it defined. -/
theorem Edits.result_eq (hrule : rule.KeepsValues names) (hp : p.Sound) (h : p.Edits rule q)
    {id : OpId} (hlt : id < p.slots.size) : (q.op id).result = (p.op id).result :=
  (h.keepsPlace hp hrule.place hlt).result.symm

/-- A value is still defined as it was, if the operation that defines it is not lost. -/
theorem Edits.resolvesValue (hrule : rule.KeepsValues names) (hp : p.Sound)
    (hvalues : p.definedValues.Nodup) (h : p.Edits rule q) {v : String}
    (hmem : ∀ d, p.definingOp? v = some d → d ∈ q.walk) : q.ResolvesValue p v := fun d hdef => by
  obtain ⟨hd, hresult⟩ := mem_walk_of_definingOp? hdef
  have hkeep := h.keepsPlace hp hrule.place (hp.created d hd)
  exact ⟨(definingOp?_eq_some_iff (h.nodup hp hvalues)).2
    ⟨hmem d hdef, hkeep.result.symm.trans hresult⟩, hkeep⟩

/-- Edits that create nothing define no value in these trees. -/
theorem DefinesNone.edits (h : p.DefinesNone names) (hrule : rule.KeepsValues names) (hp : p.Sound)
    (hedits : p.Edits rule q) (creates : ∀ p parent op, ¬ rule.creates p parent op) :
    q.DefinesNone names := by
  have hev := hedits.evolves hp
  have hold : ∀ id < q.slots.size, id < p.slots.size := fun id hid =>
    hedits.size_eq creates ▸ hid
  intro x hx hname id hid
  have hltx := hold x (hev.sound.created x hx)
  have hxp := h x (hev.walk x hx hltx) (hedits.name_mem hrule hp hltx hname) id
  rcases List.mem_cons.1 hid with rfl | hid
  · rw [hedits.result_eq hrule hp hltx]
    exact hxp List.mem_cons_self
  · have hlt := hold id (hev.sound.lt_size_of_walkIn hid)
    rw [hedits.result_eq hrule hp hlt]
    exact hxp (List.mem_cons_of_mem _ (hev.mem_walkIn hx hid hlt))

/-- A device that is put around a program has none of the names. -/
theorem Wraps.definesNone (h : p.Wraps q) (hnone : p.DefinesNone names) (hp : p.Sound)
    (hdevice : defaultDevice.name ∉ names) : q.DefinesNone names := by
  intro x hx hname id hid
  rcases h.walk x hx with hxp | hdefault
  · rw [h.op x (hp.created x hxp)] at hname
    rw [h.walkIn x hxp] at hid
    have hidp : id ∈ p.walk := by
      rcases List.mem_cons.1 hid with rfl | hid
      · exact hxp
      · exact hp.toWellFormed.mem_walk_of_walkIn hxp hid
    rw [h.op id (hp.created id hidp)]
    exact hnone x hxp hname id hid
  · rw [hdefault] at hname
    exact absurd hname hdevice

/-- When no tile is created, a value that names a tile named it before. -/
theorem Edits.tileOf?_of_old (hrule : rule.KeepsValues names) (hp : p.Sound)
    (hvalues : p.definedValues.Nodup)
    (creates : ∀ p parent op, rule.creates p parent op → op.is "aie.tile" = false)
    (h : p.Edits rule q) {v : String} {t : Tile} (ht : q.tileOf? v = some t) :
    p.tileOf? v = some t := by
  obtain ⟨id, hdef, htile, ht⟩ := tileOf?_eq_some.1 ht
  obtain ⟨hid, hresult⟩ := mem_walk_of_definingOp? hdef
  have hev := h.evolves hp
  have hkeep : ∀ id < q.slots.size, (q.op id).is "aie.tile" = true →
      id < p.slots.size ∧ (p.op id).is "aie.tile" = true ∧ (p.op id).tile? = (q.op id).tile? :=
    h.forall_op (K := fun id op => op.is "aie.tile" = true →
        id < p.slots.size ∧ (p.op id).is "aie.tile" = true ∧ (p.op id).tile? = op.tile?) hp
      (fun id a b hab hK hb => by
        obtain ⟨hlt, hname, hsame⟩ := hK ((hab.is _).symm.trans hb)
        exact ⟨hlt, hname, hsame.trans (hab.keepsPlace.tile ((hab.is _).symm.trans hb))⟩)
      (fun r parent op _ _ hop hname => by rw [creates r parent op hop] at hname; cases hname)
      (fun r id op _ hop hK hname => by
        have hplace := hrule.place r id op hop
        have hold := hplace.isTile.trans hname
        obtain ⟨hlt, hp, hsame⟩ := hK hold
        exact ⟨hlt, hp, hsame.trans (hplace.tile hold)⟩)
      fun id hlt hname => ⟨hlt, hname, rfl⟩
  obtain ⟨hlt, hname, hsame⟩ := hkeep id (hev.sound.created id hid) htile
  rw [h.result_eq hrule hp hlt] at hresult
  exact tileOf?_eq_some.2 ⟨id, (definingOp?_eq_some_iff hvalues).2 ⟨hev.walk id hid hlt, hresult⟩,
    hname, hsame.trans ht⟩

end Program

/-! ### The stages -/

/-- The names of operations that the pipeline erases with all below them. -/
def erasedNames : List String :=
  ["aie.objectfifo", "aie.objectfifo.register_process", "aiex.broadcast_packet", "aie.packet_flow",
    "aiex.multicast", "scf.yield"]

/-- The names with which operations start that are erased in the end. -/
def discardedNames : List String :=
  "affine.yield" :: erasedNames

/-- Edits that change nothing, and erase operations with one name. -/
theorem EditRule.keepsValues_of_unchanged (name : String) (hname : name ∈ names)
    (changes : ∀ p id op, ¬ rule.changes p id op)
    (erases : ∀ p id, rule.erases p id → (p.op id).is name = true) : rule.KeepsValues names where
  place p id op hop := absurd hop (changes p id op)
  gives p id op hop := absurd hop (changes p id op)
  erases p id hop := beq_iff_eq.1 (erases p id hop) ▸ hname

/-- Renaming affine operations keeps values. -/
theorem EditRule.affine_keepsValues : EditRule.affine.KeepsValues discardedNames where
  place p id op hop := by
    have hpairs : ∀ pair ∈ affineNames, pair.1 ≠ "aie.tile" ∧ pair.2 ≠ "aie.tile" := by decide
    subst hop
    rcases (p.op id).renamed_affine with h | ⟨old, new, hmem, hold, h⟩
    · rw [h]
      exact .refl _
    · obtain ⟨hne, hne'⟩ := hpairs (old, new) hmem
      have hnot : (p.op id).is "aie.tile" = false := by simp [Operation.is, hold, hne]
      rw [h]
      refine ⟨rfl, ?_, fun htile => ?_, fun _ hv => hv⟩
      · rw [hnot]
        simp [Operation.is, hne']
      · rw [hnot] at htile
        cases htile
  gives p id op hop hname := by
    have hpairs : ∀ pair ∈ affineNames, pair.2 ∈ discardedNames → pair.1 ∈ discardedNames := by
      decide
    subst hop
    rcases (p.op id).renamed_affine with h | ⟨old, new, hmem, hold, h⟩
    · rwa [h] at hname
    · rw [h] at hname
      rw [hold]
      exact hpairs (old, new) hmem hname
  erases _ _ hop := hop.elim

/-- Lock identifiers keep values. -/
theorem EditRule.lockIds_keepsValues : EditRule.lockIds.KeepsValues discardedNames where
  place _ _ _ hop := (lockIds_keepsPlace hop).2
  gives p id op hop hname := by
    obtain ⟨-, -, v, n, -, rfl⟩ := hop
    exact hname
  erases _ _ hop := hop.elim

/-- Registering processes keeps values. -/
theorem EditRule.processes_keepsValues : EditRule.processes.KeepsValues discardedNames :=
  keepsValues_of_unchanged "aie.objectfifo.register_process" (by decide)
    (fun _ _ _ hop => hop) fun _ _ hop => hop

/-- Lowering FIFOs keeps values. -/
theorem EditRule.fifos_keepsValues : EditRule.fifos.KeepsValues discardedNames where
  place p id op hop := by
    obtain ⟨name, locks, rfl⟩ := hop
    exact lowerAccess_keepsPlace name locks _
  gives p id op hop hname := by
    obtain ⟨name, locks, rfl⟩ := hop
    rcases lowerAccess_cases name locks (p.op id) with h | ⟨-, -, h, -⟩
    · rwa [h] at hname
    · rw [h] at hname
      exact absurd hname (by decide)
  erases p id hop := beq_iff_eq.1 hop ▸ by decide

/-- Lowering broadcasts keeps values. -/
theorem EditRule.broadcasts_keepsValues : EditRule.broadcasts.KeepsValues discardedNames :=
  keepsValues_of_unchanged "aiex.broadcast_packet" (by decide)
    (fun _ _ _ hop => hop) fun _ _ hop => hop

/-- Routing packet flows keeps values. -/
theorem EditRule.packets_keepsValues : EditRule.packets.KeepsValues discardedNames :=
  keepsValues_of_unchanged "aie.packet_flow" (by decide)
    (fun _ _ _ hop => hop) fun _ _ hop => hop

/-- Lowering multicasts keeps values. -/
theorem EditRule.multicasts_keepsValues : EditRule.multicasts.KeepsValues discardedNames :=
  keepsValues_of_unchanged "aiex.multicast" (by decide)
    (fun _ _ _ hop => hop) fun _ _ hop => hop

/-- Giving buffers addresses keeps values. -/
theorem EditRule.addresses_keepsValues : EditRule.addresses.KeepsValues discardedNames where
  place p id op hop := by
    obtain ⟨-, n, -, rfl⟩ := hop
    exact ⟨rfl, rfl, fun _ => rfl, fun _ hv => hv⟩
  gives p id op hop hname := by
    obtain ⟨-, n, -, rfl⟩ := hop
    exact hname
  erases _ _ hop := hop.elim

/-- Lowering loops keeps values. -/
theorem EditRule.structured_keepsValues : EditRule.structured.KeepsValues discardedNames where
  place p id op hop := by
    have htile : op.is "aie.tile" = (p.op id).is "aie.tile" := structured_is hop (by decide)
    rcases hop with ⟨-, rfl⟩ | ⟨-, rfl⟩ <;>
      exact ⟨rfl, htile.symm, fun _ => rfl, fun _ hv => hv⟩
  gives p id op hop hname := by
    rcases structured_names.changes p id op hop with heq | hmem
    · exact heq ▸ hname
    · have hdisjoint : ∀ name ∈ ["cf.loop", "cf.cond"], name ∉ discardedNames := by decide
      exact absurd hname (hdisjoint _ hmem)
  erases p id hop := beq_iff_eq.1 hop ▸ by decide

/-- The first two stages define no value in trees with names that they do not give. -/
theorem LoweringRun.base_definesNone_of (c : LoweringRun p q)
    (hrule : EditRule.affine.KeepsValues names) (hdevice : defaultDevice.name ∉ names)
    (h : p.DefinesNone names) : c.base.DefinesNone names := by
  obtain ⟨haffine, hwraps, -⟩ := c.base_ok
  exact hwraps.definesNone (h.edits hrule c.sound haffine fun _ _ _ hop => hop)
    (haffine.sound c.sound) hdevice

/-- The first two stages define no value in the trees that later ones erase. -/
theorem LoweringRun.base_definesNone (c : LoweringRun p q) (h : p.DefinesNone discardedNames) :
    c.base.DefinesNone discardedNames :=
  c.base_definesNone_of EditRule.affine_keepsValues (by decide) h

/-! ### The pipeline -/

/-- The edits of the stages up to the lowering of FIFOs. -/
def EditRule.numbering : EditRule :=
  .any [.lockIds, .processes, .fifos]

/-- The stages that number locks and buffers leave devices alone. -/
theorem EditRule.numbering_sparesDevices : EditRule.numbering.SparesDevices :=
  any_sparesDevices (by
    simp [lockIds_sparesDevices, processes_sparesDevices, fifos_sparesDevices])

/-- The stages that number locks and buffers keep values. -/
theorem EditRule.numbering_keepsValues : EditRule.numbering.KeepsValues discardedNames :=
  any_keepsValues (by simp [lockIds_keepsValues, processes_keepsValues, fifos_keepsValues])

/-- No tile is created up to the lowering of FIFOs. -/
theorem EditRule.numbering_creates {parent : Option OpId} {op : Operation}
    (h : EditRule.numbering.creates p parent op) : op.is "aie.tile" = false := by
  obtain ⟨rule, hrule, hop⟩ := h
  simp only [List.mem_cons, List.not_mem_nil, or_false] at hrule
  rcases hrule with rfl | rfl | rfl
  · exact hop.elim
  · exact Operation.not_is_of_mem hop.2.1 (by decide)
  · exact Operation.not_is_of_mem (fifos_name_mem hop) (by decide)

/-- The edits of the stages after the lowering of FIFOs. -/
def EditRule.afterFifos : EditRule :=
  .any [.broadcasts, .packets, .multicasts, .addresses, .structured]

/-- The stages after the FIFOs leave devices alone. -/
theorem EditRule.afterFifos_sparesDevices : EditRule.afterFifos.SparesDevices :=
  any_sparesDevices (by
    simp [broadcasts_sparesDevices, packets_sparesDevices, multicasts_sparesDevices,
      addresses_sparesDevices, structured_sparesDevices])

/-- The stages after the FIFOs keep values. -/
theorem EditRule.afterFifos_keepsValues : EditRule.afterFifos.KeepsValues discardedNames :=
  any_keepsValues (by
    simp [broadcasts_keepsValues, packets_keepsValues, multicasts_keepsValues,
      addresses_keepsValues, structured_keepsValues])

/-- What is created after the lowering of FIFOs carries packets and streams. -/
theorem EditRule.afterFifos_name_mem {parent : Option OpId} {op : Operation}
    (h : EditRule.afterFifos.creates p parent op) :
    op.name ∈ ["aie.packet_flow", "aie.packet_source", "aie.packet_dest", "aie.tile",
      "aie.switchbox", "aie.packet_rule", "aie.flow"] := by
  obtain ⟨rule, hrule, hop⟩ := h
  simp only [List.mem_cons, List.not_mem_nil, or_false] at hrule
  rcases hrule with rfl | rfl | rfl | rfl | rfl
  · have hmem := broadcasts_names.creates p parent op hop
    simp only [List.mem_cons, List.not_mem_nil, or_false] at hmem ⊢
    tauto
  · have hmem := packets_names.creates p parent op hop
    simp only [List.mem_cons, List.not_mem_nil, or_false] at hmem ⊢
    tauto
  · have hmem := multicasts_names.creates p parent op hop
    simp only [List.mem_cons, List.not_mem_nil, or_false] at hmem ⊢
    tauto
  · exact hop.elim
  · exact hop.elim

/-- The edits of the pipeline from where locks are numbered to its end. -/
def EditRule.fromLockIds : EditRule :=
  .any [.numbering, .afterFifos]

/-- The stages from the lock identifiers on leave devices alone. -/
theorem EditRule.fromLockIds_sparesDevices : EditRule.fromLockIds.SparesDevices :=
  any_sparesDevices (by simp [numbering_sparesDevices, afterFifos_sparesDevices])

/-- The stages from the lock identifiers on keep values. -/
theorem EditRule.fromLockIds_keepsValues : EditRule.fromLockIds.KeepsValues discardedNames :=
  any_keepsValues (by simp [numbering_keepsValues, afterFifos_keepsValues])

/-- A name that the source does not have, and the first two stages do not give, is not there. -/
theorem LoweringRun.base_name_ne (c : LoweringRun p q) {name : String}
    (hname : name ∉ affineNames.map (·.2)) (hdevice : defaultDevice.name ≠ name)
    (h : p.findAll name = []) : ∀ id ∈ c.base.walk, (c.base.op id).name ≠ name := by
  obtain ⟨haffine, hwraps, -⟩ := c.base_ok
  have hnone : ∀ id ∈ p.walk, (p.op id).name ≠ name := fun id hid heq =>
    List.filter_eq_nil_iff.1 h id hid (beq_iff_eq.2 heq)
  have hkept := haffine.forall_walk (EditRule.affine_names.keeps_ne hname) c.sound hnone
  intro id hid
  rcases hwraps.walk id hid with hida | hdefault
  · rw [hwraps.op id ((haffine.sound c.sound).created id hida)]
    exact hkept id hida
  · rwa [hdefault]

/-- In a device, an operation keeps its operands. -/
theorem LoweringRun.base_operands (c : LoweringRun p q) {id : OpId} (hid : id < p.slots.size) :
    (c.base.op id).operands = (p.op id).operands := by
  obtain ⟨haffine, hwraps, -⟩ := c.base_ok
  rw [hwraps.op id (Nat.lt_of_lt_of_le hid (haffine.size_le c.sound))]
  refine (haffine.operands_eq (P := fun _ => True) c.sound (fun _ _ _ _ => trivial)
    (fun r id op hop _ => ⟨trivial, ?_⟩) hid trivial).2
  subst hop
  rcases (r.op id).renamed_affine with h | ⟨_, _, -, -, h⟩ <;> rw [h]

/-- In a device, values are defined as they were before. -/
theorem LoweringRun.base_resolves (c : LoweringRun p q) : c.base.Resolves p := by
  obtain ⟨haffine, hwraps, -⟩ := c.base_ok
  have hsound := haffine.sound c.sound
  have hbase : c.base.Resolves c.affine := fun id hid _ =>
    ⟨hwraps.kept id hid, hwraps.op id (hsound.created id hid) ▸ .refl _⟩
  exact hbase.trans (haffine.resolves c.sound EditRule.affine_keepsValues.place
    fun _ _ _ hop => hop.elim)

/-- The program in devices has all operations of the source. -/
theorem LoweringRun.size_le (c : LoweringRun p q) : p.slots.size ≤ c.base.slots.size :=
  Nat.le_trans (c.base_ok.1.size_le c.sound) c.base_ok.2.1.size

/-- The stages up to the FIFOs edit the program by their rules. -/
theorem LoweringRun.numbering_edits (c : LoweringRun p q) : c.base.Edits .numbering c.fifos :=
  ((c.lockIds_edits.any (by simp)).trans (c.processes_edits.any (by simp))).trans
    (c.fifos_edits.any (by simp))

/-- The stages after the lowering of FIFOs, up to the layout of the buffers. -/
theorem LoweringRun.layout_edits (c : LoweringRun p q)
    (hbuffers : runOn Stage.assignBufferAddresses.action q = (.ok (), r)) :
    c.fifos.Edits .afterFifos r := by
  obtain ⟨haddresses, -⟩ := assignBufferAddresses_edits c.lowered.sound c.lowered.values hbuffers
  exact (((c.broadcasts_edits.any (by simp)).trans (c.packets_edits.any (by simp))).trans
    (c.multicasts_edits.any (by simp))).trans (haddresses.any (by simp))

/-- The stages after the lowering of FIFOs. -/
theorem LoweringRun.afterFifos_edits {s : Program} (c : LoweringRun p q)
    (hbuffers : runOn Stage.assignBufferAddresses.action q = (.ok (), s))
    (hstructured : runOn Stage.lowerStructured.action s = (.ok (), r)) :
    c.fifos.Edits .afterFifos r := by
  have hlayout := c.layout_edits hbuffers
  obtain ⟨hstructured, -⟩ := lowerStructured_edits (hlayout.sound c.fifos_sound) hstructured
  exact hlayout.trans (hstructured.any (by simp))

/-- The stages after the program is in a device, up to the layout of the buffers. -/
theorem LoweringRun.laidOut_edits (c : LoweringRun p q)
    (hbuffers : runOn Stage.assignBufferAddresses.action q = (.ok (), r)) :
    c.base.Edits .fromLockIds r :=
  (c.numbering_edits.any (by simp)).trans ((c.layout_edits hbuffers).any (by simp))

/-- All stages after the program is in a device. -/
theorem LoweringRun.fromLockIds_edits {s : Program} (c : LoweringRun p q)
    (hbuffers : runOn Stage.assignBufferAddresses.action q = (.ok (), s))
    (hstructured : runOn Stage.lowerStructured.action s = (.ok (), r)) :
    c.base.Edits .fromLockIds r :=
  (c.numbering_edits.any (by simp)).trans ((c.afterFifos_edits hbuffers hstructured).any (by simp))

end TileFlow

/-! ## The body is live -/

namespace TileFlow

open TileFlow.Action

variable {rule : EditRule} {p q : Program}

/-- One edit keeps the body live. -/
theorem Program.Edit.live (hp : p.Sound) (h : p.Edit rule q)
    (hlive : ∀ id ∈ p.walk, p.isLive id = true) : ∀ id ∈ q.walk, q.isLive id = true := by
  cases h with
  | create parent i op _ _ =>
      intro id hid
      rcases ((created_insertAt hp parent i op).walk id).1 hid with hold | ⟨rfl, -⟩
      · exact (isLive_insertAt p parent i op).2 (.inl (hlive id hold))
      · exact (isLive_insertAt p parent i op).2 (.inr rfl)
  | change id f _ _ _ =>
      intro j hj
      rw [isLive_modify]
      exact hlive j hj
  | erase id _ _ =>
      intro j hj
      obtain ⟨hmem, hne, hnot⟩ := (mem_walk_erase hp).1 hj
      exact (isLive_erase p id j).2 ⟨hlive j hmem, hne, hnot⟩

/-- Edits keep the body live. -/
theorem Program.Edits.live (hp : p.Sound) (h : p.Edits rule q)
    (hlive : ∀ id ∈ p.walk, p.isLive id = true) : ∀ id ∈ q.walk, q.isLive id = true := by
  induction h with
  | refl => exact hlive
  | tail hrest hlast ih => exact hlast.live (Program.Edits.sound hrest hp) ih

/-- Edits that erase nothing leave nothing erased. -/
theorem Program.Edits.live_all (herases : ∀ p id, ¬ rule.erases p id) (h : p.Edits rule q)
    (hlive : ∀ id < p.slots.size, p.isLive id = true) : ∀ id < q.slots.size,
    q.isLive id = true := by
  induction h with
  | refl => exact hlive
  | tail _ hlast ih =>
      cases hlast with
      | create parent i op _ _ =>
          intro id hid
          rw [size_insertAt] at hid
          rw [isLive_insertAt]
          rcases Nat.lt_succ_iff_lt_or_eq.1 hid with hold | hnew
          · exact .inl (ih id hold)
          · exact .inr hnew
      | change id f _ _ _ =>
          intro j hj
          rw [isLive_modify]
          exact ih j (by simpa using hj)
      | erase id _ allowed => exact (herases _ id allowed).elim

/-- Nothing is erased in a program that the parser made. -/
theorem Source.isLive_of_parse {source : String} (h : Source.parse source = .ok p) {id : OpId}
    (hid : id < p.slots.size) : p.isLive id = true := by
  obtain ⟨attributes, statements, -, rfl⟩ := exists_statements h
  rw [Program.isLive, Array.getElem?_eq_getElem hid]
  simp [Program.ofForest]

/-- A program that is put in a device has no erased operation if it had none before. -/
theorem wrapInDevice_live (h : runOn wrapInDevice p = (.ok (), q))
    (hlive : ∀ id < p.slots.size, p.isLive id = true) : ∀ id < q.slots.size,
    q.isLive id = true := by
  rw [wrapInDevice, get_bind_ok] at h
  split at h
  · obtain ⟨device, r, hinsert, h⟩ := bind_ok.1 h
    rw [runOn_modifyGet, Prod.mk.injEq, Except.ok.injEq] at hinsert
    obtain ⟨rfl, rfl⟩ := hinsert
    refine forM_induction (I := fun r => ∀ id < r.slots.size, r.isLive id = true) h ?_ ?_
    · intro id hid
      rw [Program.size_insertAt] at hid
      rw [Program.isLive_insertAt]
      by_cases hnew : id = p.slots.size
      · exact .inr hnew
      · exact .inl (hlive id (by omega))
    · intro id _ r s hr hmove
      rw [runOn_moveTo, Prod.mk.injEq] at hmove
      obtain ⟨-, rfl⟩ := hmove
      intro j hj
      rw [Program.isLive_moveTo]
      exact hr j (by simpa using hj)
  · obtain ⟨-, rfl⟩ := pure_ok.1 h
    exact hlive

/-- A canonical program is sound, defines no value twice, and has no erased operation in its
body. -/
theorem canonicalizeSource_ready {source : String} {m : Program}
    (h : canonicalizeSource source = .ok m) :
    m.Sound ∧ m.definedValues.Nodup ∧ ∀ id ∈ m.walk, m.isLive id = true := by
  obtain ⟨p, hparse, -⟩ := canonicalizeSource_ok h
  obtain ⟨q, r, ⟨c⟩, hbuffers, hstructured⟩ := canonicalizeSource_run hparse h
  obtain ⟨haffine, hwraps, hbase, hvalues, -⟩ := c.base_ok
  have hedits := c.fromLockIds_edits hbuffers hstructured
  have hrenamed : ∀ id < c.affine.slots.size, c.affine.isLive id = true :=
    haffine.live_all (fun _ _ h => h) fun _ => Source.isLive_of_parse hparse
  have hlive := wrapInDevice_live c.base_run hrenamed
  exact ⟨hedits.sound hbase, hedits.nodup hbase hvalues,
    hedits.live hbase fun id hid => hlive id (hbase.created id hid)⟩

end TileFlow
