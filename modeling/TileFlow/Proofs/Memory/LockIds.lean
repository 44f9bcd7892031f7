import TileFlow.Proofs.Stage.Values

/-!
# Unique identifiers of locks

The identifiers of the locks of a device stay unique on each tile while object FIFOs are lowered.
The lowering asks the program at hand which identifiers are in use, and the locks of the device are
still placed as they were when they were numbered. No later stage creates a lock or changes one.

## Main results

* `Program.Numbered.lock`: one more lock of a FIFO.
* `Program.Numbered.fifos`: the lowering of FIFOs.
* `canonicalizeSource_lockIds`: locks of canonical programs have tiles and identifiers of their own.
-/

namespace TileFlow

open TileFlow.Action

variable {base p q : Program} {device : OpId}

namespace Program

/-! ### The locks on a tile -/

section

variable {parent : Option OpId} {op : Operation} {v value : String} {tile : Tile} {n : Int}

/-- The identifiers in use on a tile. -/
theorem mem_lockIdsOn : n ∈ p.lockIdsOn device tile ↔ ∃ lock ∈ p.findIn device "aie.lock",
    p.owningTile? lock = some tile ∧ (p.op lock).lockId? = some n := by
  simp only [lockIdsOn, List.mem_filterMap, List.mem_filter, beq_iff_eq, and_assoc]

/-- What values name they name after an operation is created. -/
theorem Created.resolves (h : p.Created parent op q) (hp : p.Sound) : q.Resolves p :=
  fun id hid _ => ⟨(h.walk id).2 (.inl hid), (h.old id (hp.created id hid)).keepsPlace⟩

/-- An operation that is created with a new value, and is no tile, leaves what other values name. -/
theorem Created.placeOf?_eq (h : p.Created parent op q) (hp : p.Sound)
    (hvalues : p.definedValues.Nodup) (hresult : op.result = some value)
    (hfresh : value ∉ p.definedValues) (htile : op.is "aie.tile" = false) (hne : v ≠ value) :
    q.placeOf? v = p.placeOf? v := by
  have hvalues' := h.nodup hp hvalues fun w hw => Option.some.inj (hresult.symm.trans hw) ▸ hfresh
  have hold : ∀ w id, q.definingOp? w = some id → (id ≠ p.slots.size → id ∈ p.walk ∧
      p.definingOp? w = some id) := fun w id hid hne => by
    obtain ⟨hmem, hw⟩ := mem_walk_of_definingOp? hid
    have hidp := ((h.walk id).1 hmem).resolve_right fun hnew => hne hnew.1
    exact ⟨hidp, (definingOp?_eq_some_iff hvalues).2
      ⟨hidp, (h.old id (hp.created id hidp)).result ▸ hw⟩⟩
  have hvalue : p.ResolvesValue q v := fun id hid => by
    obtain ⟨hidp, hdef⟩ := hold v id hid fun heq => hne <| by
      have hv := (mem_walk_of_definingOp? hid).2
      rw [heq, h.header.result, hresult] at hv
      exact (Option.some.inj hv).symm
    exact ⟨hdef, (h.old id (hp.created id hidp)).symm.keepsPlace⟩
  have htiles : ∀ w t, q.tileOf? w = some t → p.tileOf? w = some t := fun w t ht => by
    obtain ⟨id, hid, his, ht⟩ := tileOf?_eq_some.1 ht
    obtain ⟨hidp, hdef⟩ := hold w id hid fun heq => by
      rw [heq, h.header.is, htile] at his
      cases his
    have hheader := h.old id (hp.created id hidp)
    exact tileOf?_eq_some.2 ⟨id, hdef, hheader.is _ ▸ his,
      (hheader.keepsPlace.tile (hheader.is _ ▸ his)).trans ht⟩
  exact Option.ext fun t => ⟨hvalue.placeOf? htiles, (h.resolves hp).placeOf? hvalues'⟩

/-- The locks of a device on a tile after an operation is created with a new value, which no lock
names as its place. -/
theorem Created.mem_lockIdsOn_iff (h : p.Created parent op q) (hp : p.Sound)
    (hvalues : p.definedValues.Nodup)
    (hwalk : ∀ id, id ∈ q.walkIn device ↔ id ∈ p.walkIn device ∨ id = p.slots.size)
    (hresult : op.result = some value) (hfresh : value ∉ p.definedValues)
    (htile : op.is "aie.tile" = false)
    (hnames : ∀ lock ∈ p.findIn device "aie.lock", (p.op lock).operandValue? 0 ≠ some value) :
    n ∈ q.lockIdsOn device tile ↔ n ∈ p.lockIdsOn device tile ∨ (op.is "aie.lock" = true ∧
      (op.operandValue? 0).bind q.placeOf? = some tile ∧ op.lockId? = some n) := by
  have hold : ∀ id ∈ p.walkIn device, (p.op id).SameHeader (q.op id) := fun id hid =>
    h.old id (hp.lt_size_of_walkIn hid)
  have howning : ∀ id ∈ p.findIn device "aie.lock", q.owningTile? id = p.owningTile? id :=
    fun id hid => by
      rw [owningTile?_eq, owningTile?_eq, (hold id (List.mem_filter.1 hid).1).operandValue?]
      exact Option.bind_congr fun v hv =>
        h.placeOf?_eq hp hvalues hresult hfresh htile fun heq => hnames id hid (heq ▸ hv)
  rw [mem_lockIdsOn, mem_lockIdsOn]
  constructor
  · rintro ⟨id, hid, hplace, hn⟩
    obtain ⟨hin, his⟩ := List.mem_filter.1 hid
    rcases (hwalk id).1 hin with hin | rfl
    · have hfound : id ∈ p.findIn device "aie.lock" :=
        List.mem_filter.2 ⟨hin, (hold id hin).is _ ▸ his⟩
      exact .inl ⟨id, hfound, howning id hfound ▸ hplace,
        ((hold id hin).operandInt? 1).symm.trans hn⟩
    · rw [owningTile?_eq, h.header.operandValue?] at hplace
      exact .inr ⟨h.header.is _ ▸ his, hplace, (h.header.operandInt? 1).symm.trans hn⟩
  · rintro (⟨id, hid, hplace, hn⟩ | ⟨his, hplace, hn⟩)
    · obtain ⟨hin, his⟩ := List.mem_filter.1 hid
      exact ⟨id, List.mem_filter.2 ⟨(hwalk id).2 (.inl hin), ((hold id hin).is _).trans his⟩,
        (howning id hid).trans hplace, ((hold id hin).operandInt? 1).trans hn⟩
    · refine ⟨_, List.mem_filter.2 ⟨(hwalk _).2 (.inr rfl), (h.header.is _).trans his⟩, ?_,
        (h.header.operandInt? 1).trans hn⟩
      rw [owningTile?_eq, h.header.operandValue?, hplace]

end

/-! ### One more lock -/

/-- A lock has no identifier that is free on its tile. -/
theorem lockSlot?_ne_of_free (hvalues : p.definedValues.Nodup) (hresolves : p.Resolves base)
    {tile : Tile} {n : Int} (hfree : n ∉ p.lockIdsOn device tile) {lock : OpId}
    (hlock : lock ∈ p.findIn device "aie.lock") :
    base.lockSlot? (p.op lock) ≠ some (tile, n) := fun hslot => by
  obtain ⟨⟨v, hv, hplace⟩, hid⟩ := lockSlot?_eq_some.1 hslot
  refine hfree (mem_lockIdsOn.2 ⟨lock, hlock, ?_, hid⟩)
  rw [owningTile?_eq, hv, Option.bind_some, hresolves.placeOf? hvalues hplace]

/-- A new lock of one of the devices that takes a free identifier leaves the locks of all of them
numbered. -/
theorem Numbered.lock {parent : Option OpId} {op : Operation} {owner : OpId} {value : String}
    {tile : Tile} {n : Int} (hn : base.Numbered device p) (hp : p.Sound)
    (hvalues : p.definedValues.Nodup) (hresolves : p.Resolves base) (hdevice : device ∈ p.devices)
    (howner : owner ∈ p.devices) (hwithin : p.Within owner parent)
    (hoperands : op.operands = [.value value, .int n]) (hplace : base.placeOf? value = some tile)
    (hpos : 0 ≤ n) (hlimit : n < (base.modelOf owner).lockCount tile.row)
    (hfree : n ∉ p.lockIdsOn owner tile) (h : p.Created parent op q) : base.Numbered device q := by
  have hcases : ∀ lock ∈ q.findIn device "aie.lock",
      (lock ∈ p.findIn device "aie.lock" ∧
        base.lockSlot? (q.op lock) = base.lockSlot? (p.op lock)) ∨
        (lock = p.slots.size ∧ device = owner) := fun lock hlock => by
    refine (h.findIn_cases hp (mem_devices.1 hdevice).1 (mem_devices.1 howner).1 hwithin
      hlock).imp_left fun hold => ⟨hold, ?_⟩
    exact lockSlot?_congr (h.old lock (hp.lt_size_of_walkIn (List.mem_filter.1 hold).1)).operands
  have hnew : base.lockSlot? (q.op p.slots.size) = some (tile, n) := by
    rw [lockSlot?_congr h.header.operands, lockSlot?_eq_some, Operation.lockId?,
      Operation.operandInt?, Operation.operandValue?, hoperands]
    exact ⟨⟨value, rfl, hplace⟩, rfl⟩
  have hclash : device = owner → ∀ lock ∈ p.findIn device "aie.lock",
      base.lockSlot? (p.op lock) ≠ some (tile, n) := by
    rintro rfl lock hlock
    exact lockSlot?_ne_of_free hvalues hresolves hfree hlock
  refine ⟨fun lock hlock => ?_, fun a ha b hb hab => ?_⟩
  · rcases hcases lock hlock with ⟨hold, hslot⟩ | ⟨rfl, rfl⟩
    · rw [hslot]
      exact hn.placed lock hold
    · exact ⟨tile, n, hnew, hpos, hlimit⟩
  · rcases hcases a ha with ⟨hold, hslot⟩ | ⟨rfl, heq⟩ <;>
      rcases hcases b hb with ⟨hold', hslot'⟩ | ⟨rfl, heq'⟩
    · rw [hslot, hslot'] at hab
      exact hn.apart a hold b hold' hab
    · rw [hslot, hnew] at hab
      exact absurd hab (hclash heq' a hold)
    · rw [hnew, hslot'] at hab
      exact absurd hab.symm (hclash heq b hold')
    · rfl

end Program

/-! ### The lowering of FIFOs -/

/-- Registering processes leaves the locks. -/
theorem EditRule.processes_leavesLocks : EditRule.processes.LeavesLocks :=
  leavesLocks_of_unchanged fun _ _ _ hop => hop

/-- The stages that number locks and buffers leave the locks that have an identifier. -/
theorem EditRule.numbering_leavesLocks : EditRule.numbering.LeavesLocks :=
  any_leavesLocks (by simp [lockIds_leavesLocks, processes_leavesLocks, fifos_leavesLocks])

/-- A rule that leaves the locks does so when it dissolves something less. -/
theorem EditRule.LeavesLocks.without {rule : EditRule} (h : rule.LeavesLocks) (name : String) :
    (rule.without name).LeavesLocks :=
  ⟨h.isLock, h.lock, h.isDevice, h.device⟩

/-- One edit of the lowering of FIFOs keeps the locks of all devices numbered. -/
theorem Program.Numbered.fifo (hbase : base.Sound) (hvalues : base.definedValues.Nodup)
    (hnone : base.DefinesNone discardedNames) (hp : base.Edits .numbering p)
    (hn : ∀ device ∈ p.devices, base.Numbered device p) (h : p.Edit .fifos q) :
    ∀ device ∈ q.devices, base.Numbered device q := by
  intro device hdevice
  have hsound := hp.sound hbase
  have hdevicep := (h.mem_devices EditRule.fifos_sparesDevices hsound).1 hdevice
  rcases h.without_or hsound "aie.lock" with
    h | ⟨parent, op, ⟨⟨owner, howner, hpart⟩, -⟩, hlock, hq⟩
  · exact (hn device hdevicep).edits (EditRule.fifos_leavesLocks.without _) hsound (.single h)
      (mem_walk_of_mem_devices hdevice) fun _ _ _ hop => hop.2
  cases hpart with
  | slot _ _ _ hname =>
      exact absurd (Operation.is_inj hname hlock) (by decide)
  | lock _ value tile n _ hoperands hplace hpos hlimit hfree hwithin =>
      have hownerb := (hp.mem_devices EditRule.numbering_sparesDevices hbase).1 howner
      have hmodel : p.modelOf owner = base.modelOf owner :=
        hp.modelOf EditRule.numbering_leavesLocks hbase
          (hbase.created owner (mem_walk_of_mem_devices hownerb)) (mem_devices.1 hownerb).2
      -- No tile is new, so that the value named the same tile when locks were numbered.
      have hplace' := hp.tileOf?_of_old EditRule.numbering_keepsValues hbase hvalues
        (fun _ _ _ => EditRule.numbering_creates) hplace
      exact (hn device hdevicep).lock hsound (hp.nodup hbase hvalues)
        (hp.resolves_of_definesNone EditRule.numbering_keepsValues hbase hnone) hdevicep howner
        hwithin hoperands (placeOf?_of_tileOf? hplace') hpos (hmodel ▸ hlimit) hfree hq
  | stream => cases hlock
  | allocation _ hname =>
      exact absurd (Operation.is_inj hname hlock) (by decide)

/-- The lowering of FIFOs keeps the locks of all devices numbered. -/
theorem Program.Numbered.fifos (hbase : base.Sound) (hvalues : base.definedValues.Nodup)
    (hnone : base.DefinesNone discardedNames) (hp : base.Edits .numbering p)
    (hn : ∀ device ∈ p.devices, base.Numbered device p) (h : p.Edits .fifos q) :
    ∀ device ∈ q.devices, base.Numbered device q := by
  induction h with
  | refl => exact hn
  | tail hr hedit ih =>
      exact Numbered.fifo hbase hvalues hnone (hp.trans (Edits.any hr (by simp))) ih hedit

/-! ### The pipeline -/

/-- The stages after the FIFOs leave the locks. -/
theorem EditRule.afterFifos_leavesLocks : EditRule.afterFifos.LeavesLocks :=
  any_leavesLocks (by
    have hunchanged : ∀ rule ∈ [broadcasts, packets, multicasts], rule.LeavesLocks := by
      simp only [List.mem_cons, List.not_mem_nil, or_false]
      rintro rule (rfl | rfl | rfl) <;> exact leavesLocks_of_unchanged fun _ _ _ hop => hop
    simpa [addresses_leavesLocks, structured_leavesLocks] using hunchanged)

/-- No lock is created after the lowering of FIFOs. -/
theorem EditRule.afterFifos_creates {parent : Option OpId} {op : Operation}
    (h : EditRule.afterFifos.creates p parent op) : op.is "aie.lock" = false :=
  Operation.not_is_of_mem (afterFifos_name_mem h) (by decide)

/-- The stages from the lock identifiers on leave the locks that have one. -/
theorem EditRule.fromLockIds_leavesLocks : EditRule.fromLockIds.LeavesLocks :=
  any_leavesLocks (by simp [numbering_leavesLocks, afterFifos_leavesLocks])

/-- The locks of a program without FIFOs are numbered as in the program that is in a device. -/
theorem LoweringRun.numbered (c : LoweringRun p q) (hnone : c.base.DefinesNone discardedNames) :
    ∀ device ∈ c.fifos.devices, c.base.Numbered device c.fifos := by
  have hspares := EditRule.processes_sparesDevices
  obtain ⟨-, hlockIds⟩ := assignLockIds_edits c.base_sound c.base_values c.lockIds_run
  have hprocesses : ∀ device ∈ c.processes.devices, c.base.Numbered device c.processes :=
    fun device hdevice =>
      (hlockIds device ((c.processes_edits.mem_devices hspares c.lockIds_sound).1 hdevice)).edits
        EditRule.processes_leavesLocks c.lockIds_sound c.processes_edits
        (Program.mem_walk_of_mem_devices hdevice)
        fun _ _ _ hop => Operation.not_is_of_mem hop.2.1 (by decide)
  exact Program.Numbered.fifos c.base_sound c.base_values hnone
    ((c.lockIds_edits.any (by simp)).trans (c.processes_edits.any (by simp)))
    hprocesses c.fifos_edits

/-- The locks of a canonical program are numbered as in the program that is in a device. -/
theorem LoweringRun.numbered_canonical {r : Program} (c : LoweringRun p r)
    (hnone : c.base.DefinesNone discardedNames) (hedits : c.fifos.Edits .afterFifos q) :
    ∀ device ∈ q.devices, c.base.Numbered device q := fun device hdevice =>
  have hspares := EditRule.afterFifos_sparesDevices
  (c.numbered hnone device ((hedits.mem_devices hspares c.fifos_sound).1 hdevice)).edits
    EditRule.afterFifos_leavesLocks c.fifos_sound hedits (Program.mem_walk_of_mem_devices hdevice)
    fun _ _ _ => EditRule.afterFifos_creates

/-- **Identifiers of locks are unique.** When a source defines no value in the trees that the
pipeline erases, every lock of its canonical program sits on a tile and has an identifier in range,
and no two locks of a device on tiles with the same coordinates have the same one. -/
theorem canonicalizeSource_lockIds {source : String} {m : Program}
    (hparse : Source.parse source = .ok p) (hnone : p.DefinesNone discardedNames)
    (h : canonicalizeSource source = .ok m) :
    ∀ device ∈ m.devices,
      (∀ lock ∈ m.findIn device "aie.lock", ∃ tile n, m.owningTile? lock = some tile ∧
        (m.op lock).lockId? = some n ∧ 0 ≤ n ∧ n < (m.modelOf device).lockCount tile.row) ∧
      ∀ a ∈ m.findIn device "aie.lock", ∀ b ∈ m.findIn device "aie.lock", a ≠ b →
        m.owningTile? a = m.owningTile? b → (m.op a).lockId? ≠ (m.op b).lockId? := by
  obtain ⟨r, s, ⟨c⟩, hbuffers, hstructured⟩ := canonicalizeSource_run hparse h
  have hnoneb := c.base_definesNone hnone
  have hedits := c.fromLockIds_edits hbuffers hstructured
  have hnumbered := c.numbered_canonical hnoneb (c.afterFifos_edits hbuffers hstructured)
  have hresolves :=
    hedits.resolves_of_definesNone EditRule.fromLockIds_keepsValues c.base_sound hnoneb
  intro device hdevice
  have hmodel : m.modelOf device = c.base.modelOf device := by
    have hdeviceb := (hedits.mem_devices EditRule.fromLockIds_sparesDevices c.base_sound).1 hdevice
    exact hedits.modelOf EditRule.fromLockIds_leavesLocks c.base_sound
      (c.base_sound.created device (Program.mem_walk_of_mem_devices hdeviceb))
      (Program.mem_devices.1 hdeviceb).2
  have hplaced : ∀ lock ∈ m.findIn device "aie.lock", ∃ tile n,
      c.base.lockSlot? (m.op lock) = some (tile, n) ∧ m.owningTile? lock = some tile ∧
        (m.op lock).lockId? = some n ∧ 0 ≤ n ∧ n < (c.base.modelOf device).lockCount tile.row :=
    fun lock hlock => by
      obtain ⟨tile, n, hslot, hpos, hlimit⟩ := (hnumbered device hdevice).placed lock hlock
      obtain ⟨⟨v, hv, hplace⟩, hid⟩ := Program.lockSlot?_eq_some.1 hslot
      refine ⟨tile, n, hslot, ?_, hid, hpos, hlimit⟩
      rw [Program.owningTile?_eq, hv, Option.bind_some,
        hresolves.placeOf? (hedits.nodup c.base_sound c.base_values) hplace]
  refine ⟨fun lock hlock => ?_, fun a ha b hb hne htile hid => hne ?_⟩
  · obtain ⟨tile, n, -, htile, hid, hpos, hlimit⟩ := hplaced lock hlock
    exact ⟨tile, n, htile, hid, hpos, hmodel ▸ hlimit⟩
  · obtain ⟨tile, n, hslot, htilea, hida, -⟩ := hplaced a ha
    obtain ⟨tile', n', hslot', htileb, hidb, -⟩ := hplaced b hb
    obtain rfl : tile = tile' := Option.some.inj (htilea.symm.trans (htile.trans htileb))
    obtain rfl : n = n' := Option.some.inj (hida.symm.trans (hid.trans hidb))
    exact (hnumbered device hdevice).apart a ha b hb (hslot.trans hslot'.symm)

/-- Two values for one tile, with a lock on each, and a FIFO that ends on the second one. -/
def aliasSource : String :=
  "%a = aie.tile(0, 2)\n%c = aie.tile(0, 2)\n%b = aie.tile(0, 3)\n" ++
  "%l = aie.lock(%c, 1)\n%k = aie.lock(%a)\n" ++
  "aie.objectfifo(%b, %c) \x7bsize = 16, sym_name = f\x7d"

/-- The locks on one tile get four identifiers. -/
theorem canonicalizeSource_lockIds_alias : ∃ p m, Source.parse aliasSource = .ok p ∧
    p.DefinesNone discardedNames ∧ canonicalizeSource aliasSource = .ok m ∧
    (m.findAll "aie.lock").map (fun lock => (m.op lock).lockId?) =
      [some 1, some 0, some 2, some 3] ∧
    ∀ device ∈ m.devices,
      (∀ lock ∈ m.findIn device "aie.lock", ∃ tile n, m.owningTile? lock = some tile ∧
        (m.op lock).lockId? = some n ∧ 0 ≤ n ∧ n < (m.modelOf device).lockCount tile.row) ∧
      ∀ a ∈ m.findIn device "aie.lock", ∀ b ∈ m.findIn device "aie.lock", a ≠ b →
        m.owningTile? a = m.owningTile? b → (m.op a).lockId? ≠ (m.op b).lockId? := by
  have hsource : ∃ p, Source.parse aliasSource = .ok p ∧ p.DefinesNone discardedNames :=
    exists_ok_of_any (by decide +kernel)
  have hids : ∃ m, canonicalizeSource aliasSource = .ok m ∧
      (m.findAll "aie.lock").map (fun lock => (m.op lock).lockId?) =
        [some 1, some 0, some 2, some 3] :=
    exists_ok_of_any (by decide +kernel)
  obtain ⟨p, hp, hnone⟩ := hsource
  obtain ⟨m, hm, hids⟩ := hids
  exact ⟨p, m, hp, hnone, hm, hids, canonicalizeSource_lockIds hp hnone hm⟩

/-- A tile that is named in the region of an affine terminator is lost with it, and the lock on it
has no tile any more, although none of the other operations that are erased defines a value. -/
theorem canonicalizeSource_loses_tile : ∃ source p m, Source.parse source = .ok p ∧
    p.DefinesNone erasedNames ∧ canonicalizeSource source = .ok m ∧
    ∃ device ∈ m.devices, ∃ lock ∈ m.findIn device "aie.lock", m.owningTile? lock = none := by
  let source := "affine.yield \x7b %t = aie.tile(0, 2) \x7d\n%l = aie.lock(%t)"
  have hsource : ∃ p, Source.parse source = .ok p ∧ p.DefinesNone erasedNames :=
    exists_ok_of_any (by decide +kernel)
  have hlost : ∃ m, canonicalizeSource source = .ok m ∧ ∃ device ∈ m.devices,
      ∃ lock ∈ m.findIn device "aie.lock", m.owningTile? lock = none :=
    exists_ok_of_any (by decide +kernel)
  obtain ⟨p, hp, hnone⟩ := hsource
  obtain ⟨m, hm, hlost⟩ := hlost
  exact ⟨source, p, m, hp, hnone, hm, hlost⟩

end TileFlow
