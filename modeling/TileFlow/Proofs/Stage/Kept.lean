import TileFlow.Proofs.Program.Evolution
import TileFlow.Proofs.Stage.Values

/-!
# What stages leave as it is

An operation that is below a device, and below nothing else, is lost only when it is erased itself:
no tree but its own has it. What it defines it goes on defining, alone.

Most stages work on operations with a few names and leave all others alone. An operation right in a
device that they leave alone is still there when they are done, and still says what it said. Edits
that erase operations with some names erase no tile that a value names, if no value is defined in
the trees of these operations at the start, and new tiles are created right in devices. What sits on
a tile by a value of the start stays there.

## Main definitions

* `Program.Outermost`: an operation of a device that is below nothing else.
* `Program.Defines`: an operation of the body that alone defines a value.
* `EditRule.Spares`: edits that leave the operations with a name as they are.
* `Program.Stands`: an operation right in a device.
* `EditRule.beforeFifos`: the edits of the stages up to the lowering of FIFOs.
* `EditRule.KeepsTiles`: edits that create tiles right in devices, and erase none.
* `Program.TilesOutermost`: tiles that are right in devices.

## Main results

* `Program.Edits.outermost`, `Program.Edits.defines`: what edits that do not erase it leave of it.
* `Program.Stands.edits`: an operation that edits leave where it is.
* `EditRule.beforeFifos_spares`, `EditRule.afterFifos_spares`: the names that the canonical pipeline
  leaves alone.
* `LoweringRun.base_is`, `LoweringRun.base_sameHeader`, `LoweringRun.base_walkIn`: what the first
  two stages leave alone.
* `Program.Edits.tilesOutermost`: tiles that edits add are right in devices.
* `Program.Edits.tileOf?_kept`: values go on to name their tiles.
* `Program.Edits.owningTile?_kept`: operations stay on their tiles.
-/

/-! ## Operations right in a device -/

namespace TileFlow.Program

variable {rule : EditRule} {p q : Program} {device id : OpId} {op : Operation} {v : String}

/-- An operation of a device that is below no other operation. -/
structure Outermost (p : Program) (device id : OpId) : Prop where
  below : id ∈ p.walkIn device
  only : ∀ a ∈ p.walk, id ∈ p.walkIn a → a = device

/-- An operation of the body that alone defines a value. -/
structure Defines (p : Program) (id : OpId) (v : String) : Prop where
  mem : id ∈ p.walk
  result : (p.op id).result = some v
  only : ∀ a ∈ p.walk, (p.op a).result = some v → a = id

/-! ### Places -/

/-- Nothing at the top is below anything. -/
theorem notMem_walkIn_of_root (hp : p.WellFormed) (hid : id ∈ p.body.roots) {a : OpId}
    (ha : a ∈ p.walk) : id ∉ p.walkIn a := fun hmem => by
  obtain ⟨g, hg, hbelow⟩ := exists_below ha
  rw [walkIn, hbelow] at hmem
  exact hp.distinct.notMem_roots_of_below hg hmem hid

/-- The operations directly in a device are below nothing else. -/
theorem outermost_of_mem_children (hp : p.WellFormed) (hdevice : device ∈ p.devices)
    (hid : id ∈ p.children (some device)) : p.Outermost device id := by
  have hbelow := mem_walkIn_of_mem_children hid
  refine ⟨hbelow, fun a ha hmem => ?_⟩
  obtain ⟨g, hg, hg'⟩ := exists_below (mem_walk_of_mem_devices hdevice)
  obtain ⟨h, hh, hh'⟩ := exists_below ha
  rw [walkIn, hg'] at hbelow
  rw [walkIn, hh'] at hmem
  rw [children, block, hg'] at hid
  refine (hp.distinct.parent_below (mem_devices.1 hdevice).1 hg hbelow hh hmem).resolve_right
    fun hag => ?_
  obtain ⟨h₂, hh₂⟩ := Forest.mem_preorder_iff.1 hag
  have heq : h₂ = h := Option.some.inj ((Forest.below?_trans hp.distinct hg hh₂).symm.trans hh)
  exact (hp.distinct.below hg).1.notMem_roots_of_below hh₂ (heq ▸ hmem) hid

/-- An operation that is created directly in a device is below nothing else. -/
theorem Created.outermost (h : p.Created (some device) op q) (hp : p.Sound)
    (hdevice : device ∈ p.devices) : q.Outermost device p.slots.size := by
  obtain ⟨hroot, -⟩ := mem_devices.1 hdevice
  have hwalk := mem_walk_of_mem_devices hdevice
  refine ⟨(h.walkIn device hwalk _).2 (.inr ⟨rfl, device, rfl, .inl rfl⟩), fun a ha hmem => ?_⟩
  rcases (h.walk a).1 ha with hap | ⟨rfl, hholds⟩
  · rcases (h.walkIn a hap _).1 hmem with hold | ⟨-, b, hb, rfl | hba⟩
    · exact absurd (hp.lt_size_of_walkIn hold) (Nat.lt_irrefl _)
    · exact (Option.some.inj hb).symm
    · cases hb
      exact absurd hba (notMem_walkIn_of_root hp.toWellFormed hroot hap)
  · rw [h.leaf hholds] at hmem
    cases hmem

/-- Before an operation that is right in a device, the place is in the device, too. -/
theorem Outermost.insertBefore_eq (h : p.Outermost device id) (hp : p.WellFormed)
    (hdevice : device ∈ p.devices) (op : Operation) :
    ∃ i, p.insertBefore id op = p.insertAt (some device) i op := by
  obtain ⟨hroot, -⟩ := mem_devices.1 hdevice
  obtain ⟨b, i, hlocate, hbelow, hb⟩ := locate?_below hp hroot h.below
  have hbwalk : b ∈ p.walk := by
    rcases hb with rfl | hb
    · exact mem_walk_of_mem_devices hdevice
    · exact hp.mem_walk_of_walkIn (mem_walk_of_mem_devices hdevice) hb
  obtain rfl := h.only b hbwalk hbelow
  exact ⟨i, by rw [insertBefore, hlocate]⟩

/-- What is put before an operation right in a device is created right in the device. -/
theorem Outermost.created (h : p.Outermost device id) (hp : p.Sound) (hdevice : device ∈ p.devices)
    (op : Operation) : p.Created (some device) op (p.insertBefore id op).2 := by
  obtain ⟨i, heq⟩ := h.insertBefore_eq hp.toWellFormed hdevice op
  rw [heq]
  exact created_insertAt hp (some device) i op

/-- An operation that nothing but its device holds stays so. -/
theorem Evolves.outermost (h : p.Evolves q) (hid : p.Outermost device id) (hlt : id < p.slots.size)
    (hdeviceLt : device < p.slots.size) (hdevice : device ∈ q.walk) (hmem : id ∈ q.walk) :
    q.Outermost device id :=
  ⟨(h.walkIn device hdevice id hmem hlt).2 ⟨hdeviceLt, hid.below⟩, fun a ha hbelow =>
    have hold := (h.walkIn a ha id hmem hlt).1 hbelow
    hid.only a (h.walk a ha hold.1) hold.2⟩

/-- An operation right in a device stays there as long as no edit erases it itself. -/
theorem Edits.outermost (hrule : rule.SparesDevices) (hp : p.Sound) (hdevice : device ∈ p.devices)
    (hid : p.Outermost device id) (h : p.Edits rule q)
    (erases : ∀ r x, p.Edits rule r → r.Outermost device id → rule.erases r x → x ≠ id) :
    q.Outermost device id := by
  have hwalk := mem_walk_of_mem_devices hdevice
  have hidp := hp.mem_walk_of_walkIn hwalk hid.below
  suffices hmem : id ∈ q.walk from
    (h.evolves hp).outermost hid (hp.created id hidp) (hp.created device hwalk)
      (mem_walk_of_mem_devices ((h.mem_devices hrule hp).2 hdevice)) hmem
  induction h with
  | refl => exact hidp
  | @tail r q hr hedit ih =>
      have hev := Edits.evolves hp hr
      have hdevice' := (Edits.mem_devices hrule hp hr).2 hdevice
      have hout := hev.outermost hid (hp.created id hidp) (hp.created device hwalk)
        (mem_walk_of_mem_devices hdevice') ih
      cases hedit with
      | create parent i op => exact ((created_insertAt hev.sound parent i op).walk id).2 (.inl ih)
      | change => exact ih
      | erase x hx hop =>
          refine ((cut_erase hev.sound hx).walk id).2
            ⟨ih, (erases r x hr hout hop).symm, fun hbelow => ?_⟩
          obtain rfl := hout.only x (hev.sound.mem_walk_of_below hbelow ih) hbelow
          have hname := (Program.mem_devices.1 hdevice').2
          rw [hrule.erases r x hop] at hname
          cases hname

/-! ### Values -/

/-- The operation that defines a value alone is found for it. -/
theorem Defines.definingOp? (h : p.Defines id v) : p.definingOp? v = some id := by
  rcases hfind : p.definingOp? v with _ | a
  · exact absurd (beq_iff_eq.2 h.result) (List.find?_eq_none.1 hfind id h.mem)
  · obtain ⟨ha, hresult⟩ := mem_walk_of_definingOp? hfind
    exact congrArg some (h.only a ha hresult)

/-- A new operation that defines a value which was not defined does so alone. -/
theorem Created.defines {parent : Option OpId} (h : p.Created parent op q) (hp : p.Sound)
    (hholds : p.Holds parent) (hresult : op.result = some v) (hfresh : v ∉ p.definedValues) :
    q.Defines p.slots.size v where
  mem := (h.walk _).2 (.inr ⟨rfl, hholds⟩)
  result := by rw [h.header.result, hresult]
  only a ha hres := by
    rcases (h.walk a).1 ha with hap | ⟨rfl, -⟩
    · rw [(h.old a (hp.created a hap)).result] at hres
      exact absurd (mem_definedValues.2 ⟨a, hap, hres⟩) hfresh
    · rfl

/-- What an operation alone defines it goes on defining alone, as long as it is there. -/
theorem Edits.defines (hp : p.Sound) (hid : p.Defines id v) (h : p.Edits rule q)
    (there : ∀ r, p.Edits rule r → id ∈ r.walk) : q.Defines id v := by
  induction h with
  | refl => exact hid
  | @tail r q hr hedit ih =>
      have hsound := Edits.sound hr hp
      have hmem := there q (hr.tail hedit)
      cases hedit with
      | create parent i op hop hfresh =>
          have hnew := created_insertAt hsound parent i op
          have hold := fun a (ha : a ∈ r.walk) => (hnew.old a (hsound.created a ha)).result
          refine ⟨hmem, by rw [hold id ih.mem, ih.result], fun a ha hres => ?_⟩
          rcases (hnew.walk a).1 ha with har | ⟨rfl, -⟩
          · exact ih.only a har (by rwa [hold a har] at hres)
          · rw [hnew.header.result] at hres
            exact absurd (mem_definedValues.2 ⟨id, ih.mem, ih.result⟩) (hfresh v hres)
      | change j f hj hop hresult =>
          have hold : ∀ a, ((r.modify j f).op a).result = (r.op a).result := fun a => by
            by_cases haj : a = j
            · rw [haj, op_modify_self hj, hresult]
            · rw [op_modify_of_ne haj]
          exact ⟨hmem, by rw [hold, ih.result], fun a ha hres => ih.only a ha (hold a ▸ hres)⟩
      | erase x hx =>
          have hcut := cut_erase hsound hx
          exact ⟨hmem, by rw [hcut.op, ih.result], fun a ha hres =>
            ih.only a ((hcut.walk a).1 ha).1 (hcut.op a ▸ hres)⟩

end TileFlow.Program

/-! ## Operations that stages leave alone -/

namespace TileFlow

variable {rule : EditRule} {p q : Program} {device id : OpId} {op : Operation} {name : String}

/-- Edits that neither change nor erase an operation with a name. -/
structure EditRule.Spares (rule : EditRule) (name : String) : Prop where
  changes : ∀ p id op, rule.changes p id op → (p.op id).is name = true → op = p.op id
  erases : ∀ p id, rule.erases p id → (p.op id).is name = false

/-- Rules that each spare the operations with a name spare them together. -/
theorem EditRule.any_spares {rules : List EditRule} (h : ∀ rule ∈ rules, rule.Spares name) :
    (any rules).Spares name where
  changes p id op := fun ⟨rule, hrule, hop⟩ => (h rule hrule).changes p id op hop
  erases p id := fun ⟨rule, hrule, hop⟩ => (h rule hrule).erases p id hop

/-- Edits that change nothing, and erase operations with another name. -/
theorem EditRule.spares_of_unchanged {other : String} (hother : other ≠ name)
    (changes : ∀ p id op, ¬ rule.changes p id op)
    (erases : ∀ p id, rule.erases p id → (p.op id).is other = true) : rule.Spares name where
  changes p id op hop := absurd hop (changes p id op)
  erases p id hop := Operation.not_is_of_is (erases p id hop) hother

namespace Program

/-- Edits that spare the operations with a name leave their headers. -/
theorem Edits.spared (hrule : rule.Spares name) (hp : p.Sound) (h : p.Edits rule q)
    (hid : id < p.slots.size) (his : (p.op id).is name = true) : (p.op id).SameHeader (q.op id) :=
  h.sameHeader_of hp hid fun r op hop hr => by
    rw [hrule.changes r id op hop ((hr.is name).trans his)]
    exact hr

/-- An operation that is right in a device, up to whether it owns a region. -/
structure Stands (p : Program) (device id : OpId) (op : Operation) : Prop where
  place : p.Outermost device id
  header : op.SameHeader (p.op id)

/-- An operation that stands in a device is found there by its name. -/
theorem Stands.mem_findIn (h : p.Stands device id op) (his : op.is name = true) :
    id ∈ p.findIn device name :=
  List.mem_filter.2 ⟨h.place.below, (h.header.is name).trans his⟩

/-- An operation that was created below a device stands in it. -/
theorem Created.stands (h : p.Created (some device) op q) (hp : p.Sound)
    (hdevice : device ∈ p.devices) : q.Stands device p.slots.size op :=
  ⟨h.outermost hp hdevice, h.header⟩

/-- An operation right in a device stays there when edits spare its name. -/
theorem Stands.edits (h : p.Stands device id op) (hrule : rule.Spares name)
    (hspares : rule.SparesDevices) (hp : p.Sound) (hdevice : device ∈ p.devices)
    (his : op.is name = true) (hedits : p.Edits rule q) : q.Stands device id op := by
  have hlt := hp.lt_size_of_walkIn h.place.below
  have hname := (h.header.is name).trans his
  refine ⟨hedits.outermost hspares hp hdevice h.place ?_,
    h.header.trans (hedits.spared hrule hp hlt hname)⟩
  rintro r x hr - hop rfl
  have herased := hrule.erases r x hop
  rw [((Edits.spared hrule hp hr hlt hname).is name).trans hname] at herased
  cases herased

end Program

/-! ### The stages -/

/-- Renaming affine operations leaves devices alone. -/
theorem EditRule.affine_sparesDevices : EditRule.affine.SparesDevices where
  creates _ _ _ hop := hop.elim
  changes _ _ _ hop := affine_is hop (by decide)
  erases _ _ hop := hop.elim

/-- Renaming affine operations spares those with other names. -/
theorem EditRule.affine_spares (hname : name ∉ affineNames.map (·.1)) :
    EditRule.affine.Spares name where
  changes p id op hop his := by
    subst hop
    refine (p.op id).renamed_affine.resolve_right ?_
    rintro ⟨old, new, hmem, hold, -⟩
    exact hname (List.mem_map.2 ⟨(old, new), hmem, hold.symm.trans (beq_iff_eq.1 his)⟩)
  erases _ _ hop := hop.elim

/-- Lock identifiers spare all operations but locks. -/
theorem EditRule.lockIds_spares (hname : name ≠ "aie.lock") : EditRule.lockIds.Spares name where
  changes _ _ _ hop his := absurd (Operation.is_inj his hop.1) hname
  erases _ _ hop := hop.elim

section

variable (c : LoweringRun p q)

/-- The first two stages leave names alone that have nothing to do with affine ones. -/
theorem LoweringRun.base_is (hname : ∀ pair ∈ affineNames, pair.1 ≠ name ∧ pair.2 ≠ name)
    (hid : id < p.slots.size) : (c.base.op id).is name = (p.op id).is name := by
  obtain ⟨haffine, hwraps, -⟩ := c.base_ok
  rw [hwraps.op id (Nat.lt_of_lt_of_le hid (haffine.size_le c.sound))]
  exact haffine.is_eq c.sound (fun _ _ _ hop => EditRule.affine_is hop hname) hid

/-- In the program in devices an operation that is not affine has the header of the source. -/
theorem LoweringRun.base_sameHeader
    (hname : ∀ pair ∈ affineNames, pair.1 ≠ name ∧ pair.2 ≠ name) (hid : id < p.slots.size)
    (his : (c.base.op id).is name = true) : (p.op id).SameHeader (c.base.op id) := by
  rw [c.base_is hname hid] at his
  obtain ⟨haffine, hwraps, -⟩ := c.base_ok
  rw [hwraps.op id (Nat.lt_of_lt_of_le hid (haffine.size_le c.sound))]
  have hnot : name ∉ affineNames.map (·.1) := fun hmem => by
    obtain ⟨pair, hpair, heq⟩ := List.mem_map.1 hmem
    exact (hname pair hpair).1 heq
  exact haffine.spared (EditRule.affine_spares hnot) c.sound hid his

/-- The first two stages move nothing but the top of the body. -/
theorem LoweringRun.base_walkIn (hid : id ∈ p.walk) : c.base.walkIn id = p.walkIn id := by
  obtain ⟨haffine, hwraps, -⟩ := c.base_ok
  obtain ⟨hbody, hdetached⟩ := haffine.body_eq (fun _ _ _ hop => hop) fun _ _ hop => hop
  rw [hwraps.walkIn id (by rwa [Program.walk, hbody])]
  simp only [Program.walkIn, Program.below, hbody, hdetached]

end

/-- The edits of the stages up to the lowering of FIFOs, for a program with devices. -/
def EditRule.beforeFifos : EditRule :=
  .any [.affine, .lockIds, .processes]

/-- The stages before the FIFOs leave devices alone. -/
theorem EditRule.beforeFifos_sparesDevices : EditRule.beforeFifos.SparesDevices :=
  any_sparesDevices (by simp [affine_sparesDevices, lockIds_sparesDevices, processes_sparesDevices])

/-- The stages before the FIFOs keep values. -/
theorem EditRule.beforeFifos_keepsValues : EditRule.beforeFifos.KeepsValues discardedNames :=
  any_keepsValues (by simp [affine_keepsValues, lockIds_keepsValues, processes_keepsValues])

/-- The stages before the FIFOs create no tile. -/
theorem EditRule.beforeFifos_creates {parent : Option OpId}
    (h : EditRule.beforeFifos.creates p parent op) : op.is "aie.tile" = false := by
  obtain ⟨rule, hrule, hop⟩ := h
  simp only [List.mem_cons, List.not_mem_nil, or_false] at hrule
  rcases hrule with rfl | rfl | rfl
  · exact hop.elim
  · exact hop.elim
  · exact Operation.not_is_of_mem hop.2.1 (by decide)

/-- The stages up to the lowering of FIFOs give some names only. -/
theorem EditRule.beforeFifos_keeps_ne (hname : name ∉ affineNames.map (·.2) ++ processNames) :
    EditRule.beforeFifos.Keeps fun op => op.name ≠ name := by
  rw [List.mem_append, not_or] at hname
  refine any_keeps (fun _ _ hab ha => hab.name.symm ▸ ha) fun rule hrule => ?_
  simp only [List.mem_cons, List.not_mem_nil, or_false] at hrule
  rcases hrule with rfl | rfl | rfl
  · exact affine_names.keeps_ne hname.1
  · exact lockIds_names.keeps_ne List.not_mem_nil
  · exact processes_names.keeps_ne hname.2

/-- The stages before the FIFOs spare all operations but affine ones, locks and registrations. -/
theorem EditRule.beforeFifos_spares
    (hname : name ∉ affineNames.map (·.1) ++ ["aie.lock", "aie.objectfifo.register_process"]) :
    EditRule.beforeFifos.Spares name := by
  rw [List.mem_append, not_or] at hname
  simp only [List.mem_cons, List.not_mem_nil, or_false, not_or] at hname
  obtain ⟨haffine, hlock, hprocess⟩ := hname
  refine any_spares fun rule hrule => ?_
  simp only [List.mem_cons, List.not_mem_nil, or_false] at hrule
  rcases hrule with rfl | rfl | rfl
  · exact affine_spares haffine
  · exact lockIds_spares hlock
  · exact spares_of_unchanged (Ne.symm hprocess) (fun _ _ _ hop => hop) fun _ _ hop => hop

/-- The stages after the lowering of FIFOs give some names only. -/
theorem EditRule.afterFifos_keeps_ne (hname : name ∉ ["aie.packet_flow", "aie.packet_source",
    "aie.packet_dest", "aie.tile", "aie.switchbox", "aie.packet_rule", "aie.flow", "cf.loop",
    "cf.cond"]) : EditRule.afterFifos.Keeps fun op => op.name ≠ name := by
  simp only [List.mem_cons, List.not_mem_nil, or_false, not_or] at hname
  refine any_keeps (fun _ _ hab ha => hab.name.symm ▸ ha) fun rule hrule => ?_
  simp only [List.mem_cons, List.not_mem_nil, or_false] at hrule
  rcases hrule with rfl | rfl | rfl | rfl | rfl
  · exact broadcasts_names.keeps_ne (by simp [hname])
  · exact packets_names.keeps_ne (by simp [hname])
  · exact multicasts_names.keeps_ne (by simp [hname])
  · exact addresses_names.keeps_ne List.not_mem_nil
  · exact structured_names.keeps_ne (by simp [hname])

/-- The stages after the FIFOs spare all operations but those that they lower, and buffers. -/
theorem EditRule.afterFifos_spares (hname : name ∉ ["aiex.broadcast_packet", "aie.packet_flow",
    "aiex.multicast", "aie.buffer", "scf.for", "scf.if", "scf.yield"]) :
    EditRule.afterFifos.Spares name := by
  simp only [List.mem_cons, List.not_mem_nil, or_false, not_or] at hname
  obtain ⟨hbroadcast, hpacket, hmulticast, hbuffer, hfor, hif, hyield⟩ := hname
  refine any_spares fun rule hrule => ?_
  simp only [List.mem_cons, List.not_mem_nil, or_false] at hrule
  rcases hrule with rfl | rfl | rfl | rfl | rfl
  · exact spares_of_unchanged (Ne.symm hbroadcast) (fun _ _ _ hop => hop) fun _ _ hop => hop
  · exact spares_of_unchanged (Ne.symm hpacket) (fun _ _ _ hop => hop) fun _ _ hop => hop
  · exact spares_of_unchanged (Ne.symm hmulticast) (fun _ _ _ hop => hop) fun _ _ hop => hop
  · exact ⟨fun p id op hop his => absurd (Operation.is_inj his hop.1) hbuffer,
      fun _ _ hop => hop.elim⟩
  · refine ⟨fun p id op hop his => ?_, fun _ _ hop => Operation.not_is_of_is hop (Ne.symm hyield)⟩
    rcases hop with ⟨hold, -⟩ | ⟨hold, -⟩
    · exact absurd (Operation.is_inj his hold) hfor
    · exact absurd (Operation.is_inj his hold) hif

/-! ### Placements -/

variable {base : Program} {d : OpId} {v : String} {tile : Tile} {names : List String}

/-- Edits that erase operations with some names only, none of which is the one of tiles, and create
tiles right in devices. -/
structure EditRule.KeepsTiles (rule : EditRule) (names : List String) : Prop where
  values : rule.KeepsValues names
  devices : rule.SparesDevices
  creates : ∀ p parent op, rule.creates p parent op → op.is "aie.tile" = true →
    ∃ device ∈ p.devices, parent = some device
  spares : "aie.tile" ∉ names

namespace Program

/-- Whether all tiles whose numbers are at least `n` are right in devices. -/
def TilesOutermost (p : Program) (n : Nat) : Prop :=
  ∀ id ∈ p.walk, n ≤ id → (p.op id).is "aie.tile" = true → ∃ device ∈ p.devices,
    p.Outermost device id

/-- An edit leaves tiles right in devices, if it creates them there. -/
theorem Edit.tilesOutermost (hrule : rule.KeepsTiles names) (hp : p.Sound) {n : Nat}
    (htiles : p.TilesOutermost n) (h : p.Edit rule q) : q.TilesOutermost n := by
  intro id hid hge htile
  have hev := h.evolves hp
  by_cases hlt : id < p.slots.size
  · have hname := Edits.is_eq hp (.single h)
      (fun r id op hop => (hrule.values.place r id op hop).isTile.symm) hlt
    obtain ⟨device, hdevice, hout⟩ := htiles id (hev.walk id hid hlt) hge (hname ▸ htile)
    have hdevice' := (h.mem_devices hrule.devices hp).2 hdevice
    exact ⟨device, hdevice', hev.outermost hout hlt
      (hp.created device (mem_walk_of_mem_devices hdevice)) (mem_walk_of_mem_devices hdevice') hid⟩
  · cases h with
    | create parent i op hop hfresh =>
        have hnew := created_insertAt hp parent i op
        obtain rfl : id = p.slots.size := by
          have hbound := hev.sound.created id hid
          rw [hnew.size] at hbound
          exact Nat.le_antisymm (Nat.lt_succ_iff.1 hbound) (Nat.le_of_not_lt hlt)
        obtain ⟨device, hdevice, rfl⟩ := hrule.creates p parent op hop (hnew.header.is _ ▸ htile)
        exact ⟨device, (Edit.mem_devices hrule.devices hp (.create (some device) i op hop hfresh)).2
          hdevice, hnew.outermost hp hdevice⟩
    | change j f => exact absurd (size_modify p j f ▸ hev.sound.created id hid) hlt
    | erase x hx => exact absurd (size_erase p x ▸ hev.sound.created id hid) hlt

/-- Tiles that edits add are right in devices. -/
theorem Edits.tilesOutermost (hrule : rule.KeepsTiles names) (hp : p.Sound) (h : p.Edits rule q) :
    q.TilesOutermost p.slots.size := by
  induction h with
  | refl => exact fun id hid hge => absurd (hp.created id hid) (Nat.not_lt.2 hge)
  | tail hr hedit ih => exact hedit.tilesOutermost hrule (Edits.sound hr hp) ih

section

variable (hrule : rule.KeepsTiles names) (hbase : base.Sound) (hvalues : base.definedValues.Nodup)
  (hnone : base.DefinesNone names) (hp : base.Edits rule p) (hq : p.Edits rule q)

include hrule hbase hvalues hnone hp hq

/-- What defines a value of the start is not erased. -/
theorem Edits.definingOp?_kept (hv : v ∈ base.definedValues) (hdef : p.definingOp? v = some d) :
    d ∈ q.walk := by
  obtain ⟨i, hi, hiv⟩ := mem_definedValues.1 hv
  obtain ⟨hip, hkept⟩ :=
    hp.resolves_of_definesNone hrule.values hbase hnone i hi (by simp [hiv])
  obtain ⟨hdp, hdv⟩ := mem_walk_of_definingOp? hdef
  obtain rfl := eq_of_result (hp.nodup hbase hvalues) hdp hip hdv (hkept.result.symm.trans hiv)
  exact ((hp.trans hq).resolves_of_definesNone hrule.values hbase hnone d hi (by simp [hiv])).1

omit hvalues in
/-- No tile that a value names is erased: those of the start define one, and the others are right in
devices. -/
theorem Edits.tile_kept (hid : id ∈ p.walk) (htile : (p.op id).is "aie.tile" = true)
    (hresult : (p.op id).result ≠ none) : id ∈ q.walk := by
  have hsound := hp.sound hbase
  by_cases hlt : id < base.slots.size
  · have hidb := (hp.evolves hbase).walk id hid hlt
    exact ((hp.trans hq).resolves_of_definesNone hrule.values hbase hnone id hidb
      (hp.result_eq hrule.values hbase hlt ▸ hresult)).1
  · obtain ⟨device, hdevice, hout⟩ :=
      hp.tilesOutermost hrule hbase id hid (Nat.le_of_not_lt hlt) htile
    have hbelow := (hq.outermost hrule.devices hsound hdevice hout fun r x hr _ hop => by
      rintro rfl
      have hname : (r.op x).is "aie.tile" = (p.op x).is "aie.tile" := hr.is_eq hsound
        (fun s y op hop => (hrule.values.place s y op hop).isTile.symm) (hsound.created x hid)
      exact hrule.spares (Operation.mem_of_is (hrule.values.erases r x hop)
        (hname.trans htile))).below
    exact (hq.sound hsound).mem_walk_of_walkIn
      (mem_walk_of_mem_devices ((hq.mem_devices hrule.devices hsound).2 hdevice)) hbelow

/-- Values go on to name the tiles that they name. -/
theorem Edits.tileOf?_kept (ht : p.tileOf? v = some tile) : q.tileOf? v = some tile := by
  refine ResolvesValue.tileOf? (hq.resolvesValue hrule.values (hp.sound hbase)
    (hp.nodup hbase hvalues) fun d hdef => ?_) ht
  obtain ⟨e, he, htile, -⟩ := tileOf?_eq_some.1 ht
  obtain rfl := Option.some.inj (hdef.symm.trans he)
  obtain ⟨hd, hresult⟩ := mem_walk_of_definingOp? hdef
  exact Edits.tile_kept hrule hbase hnone hp hq hd htile (by simp [hresult])

/-- Operations that use values of the start stay on their tiles. -/
theorem Edits.owningTile?_kept (hlt : id < p.slots.size)
    (huses : ∀ v, (p.op id).operandValue? 0 = some v → v ∈ base.definedValues)
    (ht : p.owningTile? id = some tile) : q.owningTile? id = some tile := by
  have hsound := hp.sound hbase
  rw [owningTile?_eq] at ht
  obtain ⟨v, hv, hplace⟩ := Option.bind_eq_some_iff.1 ht
  rw [owningTile?_eq, (hq.keepsPlace hsound hrule.values.place hlt).operand v hv]
  exact (hq.resolvesValue hrule.values hsound (hp.nodup hbase hvalues) fun _ =>
    Edits.definingOp?_kept hrule hbase hvalues hnone hp hq (huses v hv)).placeOf?
      (fun _ _ => Edits.tileOf?_kept hrule hbase hvalues hnone hp hq) hplace

end

end Program

end TileFlow
