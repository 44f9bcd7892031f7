import TileFlow.Proofs.Memory.LockAssignment
import TileFlow.Proofs.Memory.LockIds
import TileFlow.Proofs.Stage.Canonical
import TileFlow.Proofs.Stage.Hidden
import TileFlow.Proofs.Stage.Kept

/-!
# The canonical form is final

A program is settled when no stage of the canonical pipeline finds anything to do on it: nothing is
left that the stages replace or rename, and what the stages that complete locks and buffers check is
in order. Each stage gets through such a program and leaves it as it is.

What the canonical pipeline makes of a program, it makes nothing else of. The checks of its stages
see the result once more: the locks have identifiers of their own on the tiles that values name in
the end, and the buffers, which got their addresses on tiles, are still on these after the last
stage. That stage erases terminators, but no tile that a buffer is on.

## Main definitions

* `Program.Settled`: the programs that need no more work.
* `Operation.UsesOnly`: operations that use only some values.

## Main results

* `lowerAffine_idle`, `wrapInDevice_idle`, `lowerStructured_idle`: the stages that give a program
  its shape.
* `assignLockIds_idle`, `assignBufferAddresses_idle`: the stages that check locks and buffers again.
* `Program.Settled.canonicalize_idle`: the pipeline leaves a settled program as it is.
* `LoweringRun.buffers_usesOnly`: buffers use values that are defined from the start.
* `LoweringRun.settled`: the canonical program is settled.
* `canonicalize_idempotent`: the pipeline leaves what it made as it is.
-/

/-! ## Programs that the pipeline leaves alone -/

namespace TileFlow

open TileFlow.Action

variable {p q : Program} {device : OpId}

/-! ### Programs as they are -/

/-- A change that leaves an operation as it is changes nothing. -/
theorem Program.modify_eq_self {id : OpId} {f : Operation → Operation}
    (h : f (p.op id) = p.op id) : p.modify id f = p := by
  have hslots : (p.slots.modify id fun s => { s with op := f s.op }) = p.slots := by
    refine Array.ext_getElem? fun j => ?_
    rw [Array.getElem?_modify]
    split
    · rename_i hid
      subst hid
      rcases hslot : p.slots[id]? with _ | s
      · rfl
      · rw [Program.op, hslot, Option.map_some, Option.getD_some] at h
        rw [Option.map_some, h]
    · rfl
  rw [modify, hslots]

/-! ### Structural stages -/

/-- An operation that is not affine keeps its name. -/
theorem Operation.renamed_affine_of_ne {op : Operation} (h : op.dialect ≠ "affine") :
    op.renamed affineNames = op := by
  have hpairs : ∀ pair ∈ affineNames, Operation.dialect { name := pair.1 } = "affine" := by decide
  rcases op.renamed_affine with heq | ⟨old, new, hmem, rfl, -⟩
  · exact heq
  · exact absurd (hpairs (op.name, new) hmem) h

/-- Without affine operations there is nothing to rename. -/
theorem lowerAffine_idle (h : ∀ id ∈ p.walk, (p.op id).dialect ≠ "affine") :
    runOn Stage.lowerAffine.action p = (.ok (), p) := by
  have hfold : ∀ l : List OpId, (∀ id ∈ l, (p.op id).dialect ≠ "affine") →
      l.foldl (fun q id => q.modify id (·.renamed affineNames)) p = p := by
    intro l
    induction l with
    | nil => exact fun _ => rfl
    | cons id l ih =>
        intro hl
        rw [List.foldl_cons, Program.modify_eq_self
          (Operation.renamed_affine_of_ne (hl id List.mem_cons_self))]
        exact ih fun j hj => hl j (List.mem_cons_of_mem _ hj)
  have hnone : (p.walk.find? fun id => (p.op id).dialect == "affine") = none :=
    List.find?_eq_none.2 fun id hid => by simpa using h id hid
  change runOn TileFlow.lowerAffine p = _
  rw [TileFlow.lowerAffine]
  refine bind_ok.2 ⟨(), p, by rw [runOn_modify, hfold p.walk h], ?_⟩
  rw [get_bind_ok, hnone]
  rfl

/-- With a device at the top there is nothing to wrap. -/
theorem wrapInDevice_idle (h : p.devices ≠ []) :
    runOn Stage.canonicalizeDevice.action p = (.ok (), p) := by
  change runOn wrapInDevice p = _
  rw [wrapInDevice, get_bind_ok, if_neg (by simpa using h)]
  rfl

/-- Without structured operations there is nothing to lower. -/
theorem lowerStructured_idle (h : ∀ id ∈ p.walk, (p.op id).name ∉ structuredNames) :
    runOn Stage.lowerStructured.action p = (.ok (), p) := by
  have hnot : ∀ id ∈ p.walk, ∀ name ∈ structuredNames, (p.op id).is name = false :=
    fun id hid name hname => beq_eq_false_iff_ne.2 fun heq => h id hid (heq ▸ hname)
  have hyields : p.findAll "scf.yield" = [] :=
    List.filter_eq_nil_iff.2 fun id hid => by simp [hnot id hid "scf.yield" (by decide)]
  change runOn TileFlow.lowerStructured p = _
  rw [TileFlow.lowerStructured, get_bind_ok, hyields]
  refine bind_ok.2 ⟨(), p, forM_nil_ok.2 rfl, ?_⟩
  rw [get_bind_ok]
  refine forM_idle fun id hid => ?_
  rw [lowerControl, get_bind_ok]
  simp [hnot id hid "scf.for" (by decide), hnot id hid "scf.if" (by decide)]

/-! ### Locks -/

/-- A lock of a numbered device is on a tile, and has an identifier in the range of its row. -/
theorem Program.Numbered.slot (h : p.Numbered device p) {lock : OpId}
    (hlock : lock ∈ p.findIn device "aie.lock") : ∃ tile n,
      p.lockSlot? (p.op lock) = some (tile, n) ∧ p.owningTile? lock = some tile ∧
        (p.op lock).lockId? = some n ∧ 0 ≤ n ∧ n < (p.modelOf device).lockCount tile.row := by
  obtain ⟨tile, n, hslot, hpos, hlimit⟩ := h.placed lock hlock
  obtain ⟨hplace, hn⟩ := Program.lockSlot?_eq_some.1 hslot
  refine ⟨tile, n, hslot, ?_, hn, hpos, hlimit⟩
  rw [Program.owningTile?_eq]
  exact Option.bind_eq_some_iff.2 hplace

/-- Numbered locks pass the check, and none needs another identifier. -/
theorem assignLockIds_idle (hp : p.WellFormed) (hdevice : device ∈ p.devices)
    (h : p.Numbered device p) : runOn (assignLockIds device) p = (.ok (), p) := by
  have hnumbered {lock tile n} (hlock : lock ∈ p.findIn device "aie.lock")
      (ht : p.owningTile? lock = some tile) (hn : (p.op lock).lockId? = some n) :
      p.lockSlot? (p.op lock) = some (tile, n) ∧ 0 ≤ n ∧
        n < (p.modelOf device).lockCount tile.row := by
    obtain ⟨t, m, hslot, ht', hm, hrange⟩ := h.slot hlock
    obtain rfl := Option.some.inj (ht'.symm.trans ht)
    obtain rfl := Option.some.inj (hm.symm.trans hn)
    exact ⟨hslot, hrange⟩
  obtain ⟨ledger, henter⟩ : ∃ l, runOn ((p.findIn device "aie.lock").foldlM
      (enterLock (p.modelOf device)) ⟨[]⟩) p = (.ok l, p) :=
    enterLocks_exists (hp.nodup_findIn (Program.mem_walk_of_mem_devices hdevice) "aie.lock")
      (fun lock hlock => (h.slot hlock).imp fun _ ⟨_, _, ht, _⟩ => ht)
      (fun lock hlock tile n ht hn => (hnumbered hlock ht hn).2)
      fun a ha b hb tile n hta htb hna hnb => h.apart a ha b hb
        ((hnumbered ha hta hna).1.trans (hnumbered hb htb hnb).1.symm)
  obtain ⟨ledger', hchoose⟩ := foldlM_idle_of_mem (p := p) (f := chooseLockId (p.modelOf device))
    (l := p.findIn device "aie.lock") (a := ledger) fun lock hlock ledger => by
      obtain ⟨tile, n, -, -, hn, -⟩ := h.slot hlock
      exact ⟨ledger, chooseLockId_run hn⟩
  rw [assignLockIds, get_bind_ok]
  exact bind_ok.2 ⟨ledger, p, henter, bind_ok.2 ⟨ledger', p, hchoose, rfl⟩⟩

/-! ### Buffers -/

/-- A buffer on a known tile is put with those of its tile. -/
theorem groupBuffer_run {groups : List TileBuffers} {buffer : OpId} {tile : Tile}
    (h : p.owningTile? buffer = some tile) :
    runOn (groupBuffer groups buffer) p = (.ok (insertBuffer tile buffer groups), p) := by
  rw [groupBuffer, get_bind_ok]
  exact orFail_bind_ok.2 ⟨tile, h, rfl⟩

/-- A buffer that is laid out passes the check. -/
theorem checkBuffer_run {next : Int} {buffer : OpId} (h : (p.op buffer).IsLaidOut) :
    ∃ next', runOn (checkBuffer next buffer) p = (.ok next', p) := by
  obtain ⟨size, address, hsize, hpos, haddress, hnonneg, hfits⟩ := h
  obtain ⟨stop, hstop⟩ := Option.isSome_iff_exists.1 (hfits size hsize)
  refine ⟨max next stop, ?_⟩
  rw [checkBuffer, get_bind_ok]
  refine orFail_bind_ok.2 ⟨size, hsize, ensure_bind_ok.2 ⟨by simpa using hpos, ?_⟩⟩
  rw [haddress]
  exact ensure_bind_ok.2 ⟨by simpa using hnonneg, orFail_bind_ok.2 ⟨stop, hstop, rfl⟩⟩

/-- A buffer that is laid out keeps its place. -/
theorem placeBuffer_run {tile : Tile} {limit next : Int} {buffer : OpId}
    (h : (p.op buffer).IsLaidOut) :
    runOn (placeBuffer tile limit next buffer) p = (.ok next, p) := by
  obtain ⟨size, address, hsize, -, haddress, -⟩ := h
  rw [placeBuffer, get_bind_ok, haddress, hsize]
  rfl

/-- Buffers that are laid out stay as they are. -/
theorem layOutTile_idle {model : DeviceModel} {coreTiles : List Tile} {g : TileBuffers}
    (h : ∀ buffer ∈ g.buffers, (p.op buffer).IsLaidOut) :
    runOn (layOutTile model coreTiles g) p = (.ok (), p) := by
  obtain ⟨next, hcheck⟩ := foldlM_idle_of_mem (p := p) (f := checkBuffer) (l := g.buffers)
    (a := if g.tile ∈ coreTiles then model.stackSize else 0) fun buffer hbuffer _ =>
      checkBuffer_run (h buffer hbuffer)
  obtain ⟨next', hplace⟩ := foldlM_idle_of_mem (p := p) (a := next)
    (f := placeBuffer g.tile (model.dataMemorySize g.tile.row)) (l := g.buffers)
    fun buffer hbuffer next => ⟨next, placeBuffer_run (h buffer hbuffer)⟩
  rw [layOutTile]
  exact bind_ok.2 ⟨next, p, hcheck, bind_ok.2 ⟨next', p, hplace, rfl⟩⟩

/-- Buffers that are laid out pass all checks, and none needs another place. -/
theorem assignBufferAddresses_idle
    (hlocks : ∀ lock ∈ p.findIn device "aie.lock", ∃ n, (p.op lock).lockId? = some n)
    (hplaced : p.Placed device) (hlaid : p.LaidOut device) :
    runOn (assignBufferAddresses device) p = (.ok (), p) := by
  obtain ⟨groups, hgroups⟩ := foldlM_idle_of_mem (p := p) (f := groupBuffer)
    (l := p.findIn device "aie.buffer") (a := []) fun buffer hbuffer groups => by
      obtain ⟨tile, htile⟩ := hplaced buffer hbuffer
      exact ⟨_, groupBuffer_run htile⟩
  obtain ⟨-, hmem, -⟩ := groupBuffers_ok hgroups
  rw [assignBufferAddresses, get_bind_ok]
  refine bind_ok.2 ⟨(), p, forM_idle fun lock hlock => ?_, bind_ok.2 ⟨groups, p, hgroups, ?_⟩⟩
  · obtain ⟨n, hn⟩ := hlocks lock hlock
    exact ensure_ok.2 ⟨by rw [hn]; rfl, rfl⟩
  · refine forM_idle fun g hg => layOutTile_idle fun buffer hbuffer => ?_
    have hin := ((hmem buffer).1 ⟨g, hg, hbuffer⟩).resolve_right (by simp)
    obtain ⟨hin, hname⟩ := List.mem_filter.1 hin
    exact hlaid buffer hin hname

/-! ### The pipeline -/

/-- A program in canonical form, whose locks and buffers pass the checks of the stages that complete
them. -/
structure Program.Settled (p : Program) : Prop where
  wellFormed : p.WellFormed
  canonical : p.Canonical
  numbered : ∀ device ∈ p.devices, p.Numbered device p
  placed : ∀ device ∈ p.devices, p.Placed device
  laidOut : ∀ device ∈ p.devices, p.LaidOut device

/-- No stage of the pipeline finds anything to do on a settled program. -/
theorem Program.Settled.action_run (h : p.Settled) {stage : Stage}
    (hstage : stage ∈ Pipeline.canonicalize.stages) : runOn stage.action p = (.ok (), p) := by
  have hgone : ∀ name ∈ loweredNames, ∀ device ∈ p.devices, ∀ id ∈ p.walkIn device,
      (p.op id).is name = false := fun name hname device hdevice id hid =>
    beq_eq_false_iff_ne.2 fun heq => h.canonical.lowered device hdevice id hid (heq ▸ hname)
  simp only [Pipeline.canonicalize, List.mem_cons, List.not_mem_nil, or_false] at hstage
  rcases hstage with rfl | rfl | rfl | rfl | rfl | rfl | rfl | rfl | rfl | rfl
  · exact lowerAffine_idle h.canonical.affine
  · exact wrapInDevice_idle h.canonical.devices
  · exact Stage.onEachDevice_idle fun device hdevice =>
      assignLockIds_idle h.wellFormed hdevice (h.numbered device hdevice)
  · exact Stage.findIn_idle (hgone "aie.objectfifo.register_process" (by decide))
  · exact Stage.findIn_idle (hgone "aie.objectfifo" (by decide))
  · exact Stage.findIn_idle (hgone "aiex.broadcast_packet" (by decide))
  · exact Stage.findIn_idle (hgone "aie.packet_flow" (by decide))
  · exact Stage.findIn_idle (hgone "aiex.multicast" (by decide))
  · exact Stage.onEachDevice_idle fun device hdevice => assignBufferAddresses_idle
      (h.canonical.locks device hdevice) (h.placed device hdevice) (h.laidOut device hdevice)
  · exact lowerStructured_idle h.canonical.structured

/-- Stages that leave a program as it is leave it so one after the other. -/
theorem Pipeline.runStages_idle {stages : List Stage}
    (h : ∀ stage ∈ stages, runOn stage.action p = (.ok (), p)) :
    runStages stages p = (.ok (), p) := by
  induction stages with
  | nil => rfl
  | cons stage stages ih =>
      exact runStages_cons_ok.2 ⟨p, h stage List.mem_cons_self,
        ih fun other hother => h other (List.mem_cons_of_mem _ hother)⟩

/-- The pipeline leaves a settled program as it is. -/
theorem Program.Settled.canonicalize_idle (h : p.Settled) :
    Pipeline.canonicalize.run p = (.ok (), p) :=
  Pipeline.runStages_idle fun _ hstage => h.action_run hstage

end TileFlow

/-! ## Programs that the pipeline made -/

namespace TileFlow

open TileFlow.Action

variable {rule : EditRule} {base p q r m : Program} {names values : List String}

/-! ### Values in use -/

/-- Whether all values that an operation uses are among some. -/
def Operation.UsesOnly (op : Operation) (values : List String) : Prop :=
  ∀ v, .value v ∈ op.operands → v ∈ values

/-- An operation with the same operands uses the same values. -/
theorem Operation.UsesOnly.congr {a b : Operation} (h : a.UsesOnly values)
    (hab : b.operands = a.operands) : b.UsesOnly values := fun v hv => h v (hab ▸ hv)

/-- A value that an operand refers to is one of those in use. -/
theorem Operation.UsesOnly.operandValue? {op : Operation} (h : op.UsesOnly values) {i : Nat}
    {v : String} (hv : op.operandValue? i = some v) : v ∈ values :=
  h v (Operation.mem_operands_of_value hv)

/-- The operations with a name use only some values, if those that are created do. -/
theorem Program.Edits.usesOnly {name : String} (hrule : rule.LeavesOperands name) (hp : p.Sound)
    (h : p.Edits rule q)
    (creates : ∀ r parent op, p.Edits rule r → rule.creates r parent op → op.is name = true →
      op.UsesOnly values)
    (start : ∀ id < p.slots.size, (p.op id).is name = true → (p.op id).UsesOnly values) :
    ∀ id < q.slots.size, (q.op id).is name = true → (q.op id).UsesOnly values :=
  h.forall_op (K := fun _ op => op.is name = true → op.UsesOnly values) hp
    (fun _ _ _ hab ha hb => (ha ((hab.is name).symm.trans hb)).congr hab.operands)
    (fun r parent op hr _ hop => creates r parent op hr hop)
    (fun r id op _ hop ha hb =>
      have hold := (hrule.is_eq r id op hop).symm.trans hb
      (ha hold).congr (hrule.operands r id op hop hold))
    start

/-- In a device, the operations of a source use only values that are defined. -/
theorem LoweringRun.base_usesOnly {source : String} (hparse : Source.parse source = .ok p)
    (c : LoweringRun p q) :
    ∀ id < c.base.slots.size, (c.base.op id).UsesOnly c.base.definedValues := by
  obtain ⟨haffine, hwraps, -⟩ := c.base_ok
  have hdefined : ∀ v ∈ p.definedValues, v ∈ c.base.definedValues := fun v hv => by
    obtain ⟨id, hid, hresult⟩ := Program.mem_definedValues.1 hv
    obtain ⟨hidb, hkeep⟩ := c.base_resolves id hid (by simp [hresult])
    exact Program.mem_definedValues.2 ⟨id, hidb, hkeep.result.symm.trans hresult⟩
  intro id hid v hv
  by_cases hlt : id < c.affine.slots.size
  · have hltp : id < p.slots.size := haffine.size_eq (fun _ _ _ hop => hop) ▸ hlt
    rw [c.base_operands hltp] at hv
    exact hdefined v (Source.mem_definedValues_of_parse hparse hltp hv)
  · rw [hwraps.new id hid (Nat.le_of_not_lt hlt)] at hv
    simp [defaultDevice] at hv

/-- The buffers that hold the elements of FIFOs use only values that are defined before locks are
numbered: each is on the tile of a consumer. -/
theorem LoweringRun.fifos_usesOnly (c : LoweringRun p q)
    (hbase : ∀ id < c.base.slots.size, (c.base.op id).UsesOnly c.base.definedValues) :
    ∀ id < c.fifos.slots.size, (c.fifos.op id).is "aie.buffer" = true →
      (c.fifos.op id).UsesOnly c.base.definedValues := by
  refine c.numbering_edits.usesOnly (EditRule.numbering_leavesOperands (by decide)) c.base_sound
    (fun s parent op hs hop hname => ?_) fun id hid _ => hbase id hid
  obtain ⟨rule, hrule, hop⟩ := hop
  simp only [List.mem_cons, List.not_mem_nil, or_false] at hrule
  rcases hrule with rfl | rfl | rfl
  · exact hop.elim
  · exact absurd (Operation.mem_of_is hop.2.1 hname) (by decide)
  · obtain ⟨⟨device, -, hpart⟩, -⟩ := hop
    cases hpart with
    | slot _ value tile _ hoperands hplace =>
        intro v hv
        rw [hoperands, List.mem_singleton, Attribute.value.injEq] at hv
        subst hv
        obtain ⟨id, hdef, -⟩ := Program.tileOf?_eq_some.1
          (hs.tileOf?_of_old EditRule.numbering_keepsValues c.base_sound c.base_values
            (fun _ _ _ => EditRule.numbering_creates) hplace)
        exact Program.mem_definedValues.2 ⟨id, Program.mem_walk_of_definingOp? hdef⟩
    | lock _ _ _ _ hlock =>
        exact absurd (Operation.is_inj hlock hname) (by decide)
    | stream => cases hname
    | allocation _ hallocation =>
        exact absurd (Operation.is_inj hallocation hname) (by decide)

/-- Buffers use only values that are defined before locks are numbered: after the lowering of FIFOs
no more buffers are created. -/
theorem LoweringRun.buffers_usesOnly (c : LoweringRun p q)
    (hbase : ∀ id < c.base.slots.size, (c.base.op id).UsesOnly c.base.definedValues)
    (hbuffers : runOn Stage.assignBufferAddresses.action q = (.ok (), r)) :
    ∀ id < r.slots.size, (r.op id).is "aie.buffer" = true →
      (r.op id).UsesOnly c.base.definedValues := by
  refine (c.layout_edits hbuffers).usesOnly (EditRule.afterFifos_leavesOperands (by decide))
    c.fifos_sound (fun s parent op _ hop hname => ?_) (c.fifos_usesOnly hbase)
  exact absurd (Operation.mem_of_is (EditRule.afterFifos_name_mem hop) hname) (by decide)

/-! ### Tiles -/

/-- Only the routing of packets creates tiles, and right in devices. -/
theorem EditRule.fromLockIds_creates {parent : Option OpId} {op : Operation}
    (h : EditRule.fromLockIds.creates p parent op) (htile : op.is "aie.tile" = true) :
    ∃ device ∈ p.devices, parent = some device := by
  obtain ⟨rule, hrule, hop⟩ := h
  simp only [List.mem_cons, List.not_mem_nil, or_false] at hrule
  rcases hrule with rfl | rfl
  · rw [numbering_creates hop] at htile
    cases htile
  obtain ⟨rule, hrule, hop⟩ := hop
  simp only [List.mem_cons, List.not_mem_nil, or_false] at hrule
  rcases hrule with rfl | rfl | rfl | rfl | rfl
  · exact absurd (Operation.mem_of_is (broadcasts_names.creates p parent op hop) htile) (by decide)
  · rcases hop with ⟨-, hplace⟩ | ⟨-, hbox⟩ | ⟨_, _, _, rfl, -⟩
    · exact hplace
    · exact absurd (Operation.is_inj hbox htile) (by decide)
    · cases htile
  · exact absurd (Operation.mem_of_is (multicasts_names.creates p parent op hop) htile) (by decide)
  · exact hop.elim
  · exact hop.elim

/-- The stages from the lock identifiers on keep the tiles. -/
theorem EditRule.fromLockIds_keepsTiles : EditRule.fromLockIds.KeepsTiles discardedNames where
  values := fromLockIds_keepsValues
  devices := fromLockIds_sparesDevices
  creates _ _ _ := fromLockIds_creates
  spares := by decide

/-! ### The canonical program -/

section

variable (c : LoweringRun p q) (hnone : c.base.DefinesNone discardedNames)
  (hbuffers : runOn Stage.assignBufferAddresses.action q = (.ok (), r))
  (hstructured : runOn Stage.lowerStructured.action r = (.ok (), m))

include hnone hbuffers hstructured

/-- The buffers of a canonical program are still on their tiles. -/
theorem LoweringRun.placed_canonical
    (hbase : ∀ id < c.base.slots.size, (c.base.op id).UsesOnly c.base.definedValues) :
    ∀ device ∈ m.devices, m.Placed device := by
  obtain ⟨haddresses, -, hplaced⟩ :=
    assignBufferAddresses_edits c.lowered.sound c.lowered.values hbuffers
  have hrs := haddresses.sound c.lowered.sound
  have hlast := (lowerStructured_edits hrs hstructured).1
  have hafter : r.Edits .afterFifos m := hlast.any (by simp)
  have hev := hlast.evolves hrs
  intro device hdevice buffer hbuffer
  obtain ⟨hin, hname⟩ := List.mem_filter.1 hbuffer
  have hlt : buffer < r.slots.size :=
    hlast.size_eq (fun _ _ _ hop => hop) ▸ hev.sound.lt_size_of_walkIn hin
  have hbuffer : (r.op buffer).is "aie.buffer" = true := (hlast.is_eq hrs
    (fun _ _ _ hop => EditRule.structured_is hop (by decide)) hlt).symm.trans hname
  have hinr := hev.mem_walkIn (Program.mem_walk_of_mem_devices hdevice) hin hlt
  obtain ⟨tile, htile⟩ := hplaced device
    ((hlast.mem_devices EditRule.structured_sparesDevices hrs).1 hdevice) buffer
    (List.mem_filter.2 ⟨hinr, hbuffer⟩)
  exact ⟨tile, Program.Edits.owningTile?_kept EditRule.fromLockIds_keepsTiles c.base_sound
    c.base_values hnone (c.laidOut_edits hbuffers) (hafter.any (by simp)) hlt
    (fun _ => (c.buffers_usesOnly hbase hbuffers buffer hlt hbuffer).operandValue?) htile⟩

/-- The locks of a canonical program are numbered by its own values. -/
theorem LoweringRun.numbered_self : ∀ device ∈ m.devices, m.Numbered device m := by
  have hedits := c.fromLockIds_edits hbuffers hstructured
  intro device hdevice
  have hdeviceb := (hedits.mem_devices EditRule.fromLockIds_sparesDevices c.base_sound).1 hdevice
  refine (c.numbered_canonical hnone (c.afterFifos_edits hbuffers hstructured) device
    hdevice).rebase (hedits.resolves_of_definesNone EditRule.fromLockIds_keepsValues c.base_sound
      hnone) (hedits.nodup c.base_sound c.base_values) ?_
  exact hedits.modelOf EditRule.fromLockIds_leavesLocks c.base_sound
    (c.base_sound.created device (Program.mem_walk_of_mem_devices hdeviceb))
    (Program.mem_devices.1 hdeviceb).2

/-- A canonical program is settled. -/
theorem LoweringRun.settled
    (hbase : ∀ id < c.base.slots.size, (c.base.op id).UsesOnly c.base.definedValues) :
    m.Settled := by
  obtain ⟨haddresses, hlaid, -⟩ :=
    assignBufferAddresses_edits c.lowered.sound c.lowered.values hbuffers
  have hrs := haddresses.sound c.lowered.sound
  have hlast := (lowerStructured_edits hrs hstructured).1
  exact
    { wellFormed := (hlast.sound hrs).toWellFormed
      canonical := canonical_of_lowered c.lowered hbuffers hstructured
      numbered := c.numbered_self hnone hbuffers hstructured
      placed := c.placed_canonical hnone hbuffers hstructured hbase
      laidOut := laidOut_structured hrs hlaid hlast }

end

/-- **The pipeline is idempotent.** When a source defines no value in the trees that the pipeline
erases, a second run of the pipeline succeeds on what the first one made of it, and changes nothing.
-/
theorem canonicalize_idempotent {source : String} (hparse : Source.parse source = .ok p)
    (hnone : p.DefinesNone discardedNames) (h : Pipeline.canonicalize.run p = (.ok (), m)) :
    Pipeline.canonicalize.run m = (.ok (), m) := by
  obtain ⟨q, r, ⟨c⟩, hbuffers, hstructured⟩ := Pipeline.canonicalize_run hparse h
  exact (c.settled (c.base_definesNone hnone) hbuffers hstructured
    (c.base_usesOnly hparse)).canonicalize_idle

/-- A device with a buffer, a lock, a FIFO and packets that cross a tile which has no value yet. -/
def crossingSource : String :=
  "aie.device(ipu) \x7b %a = aie.tile(0, 2) %b = aie.tile(0, 4)\n" ++
  "%u = aie.buffer(%b) \x7bsize = 64\x7d %l = aie.lock(%a)\n" ++
  "aie.objectfifo(%a, %b) \x7bsize = 16, sym_name = f\x7d\n" ++
  "aie.packet_flow(1) \x7b aie.packet_source(%a, DMA, 0) aie.packet_dest(%b, DMA, 0) \x7d\n" ++
  "scf.for(0, 4, 1) \x7b scf.yield \x7d \x7d"

/-- The device gets a tile, two locks and two buffers in the first run, and nothing in the second.
-/
theorem canonicalize_idempotent_crossing : ∃ p m, Source.parse crossingSource = .ok p ∧
    p.DefinesNone discardedNames ∧ Pipeline.canonicalize.run p = (.ok (), m) ∧
    ((m.findAll "aie.tile").length = 3 ∧ (m.findAll "aie.lock").length = 3 ∧
      (m.findAll "aie.buffer").length = 3) ∧ Pipeline.canonicalize.run m = (.ok (), m) := by
  have hsource : ∃ p, Source.parse crossingSource = .ok p ∧ p.DefinesNone discardedNames ∧
      (Pipeline.canonicalize.run p).1.toOption = some () ∧
      ((Pipeline.canonicalize.run p).2.findAll "aie.tile").length = 3 ∧
      ((Pipeline.canonicalize.run p).2.findAll "aie.lock").length = 3 ∧
      ((Pipeline.canonicalize.run p).2.findAll "aie.buffer").length = 3 :=
    exists_ok_of_any (by decide +kernel)
  obtain ⟨p, hp, hnone, hok, hcounts⟩ := hsource
  have hrun := Pipeline.run_eq_ok hok
  exact ⟨p, _, hp, hnone, hrun, hcounts, canonicalize_idempotent hp hnone hrun⟩

/-- A tile that is named in the region of an affine terminator is lost with it in the first run,
although none of the other operations that are erased defines a value, and the second run does not
find the lock on a tile any more. -/
theorem canonicalize_again_fails : ∃ source p m, Source.parse source = .ok p ∧
    p.DefinesNone erasedNames ∧ Pipeline.canonicalize.run p = (.ok (), m) ∧
    Pipeline.canonicalize.run m ≠ (.ok (), m) := by
  let source :=
    "aie.device(ipu) \x7b affine.yield \x7b %t = aie.tile(0, 2) \x7d %l = aie.lock(%t) \x7d"
  have hsource : ∃ p, Source.parse source = .ok p ∧ p.DefinesNone erasedNames ∧
      (Pipeline.canonicalize.run p).1.toOption = some () ∧
      (Pipeline.canonicalize.run (Pipeline.canonicalize.run p).2).1.toOption = none :=
    exists_ok_of_any (by decide +kernel)
  obtain ⟨p, hp, hnone, hok, hfails⟩ := hsource
  exact ⟨source, p, _, hp, hnone, Pipeline.run_eq_ok hok, fun heq => by
    rw [heq] at hfails
    cases hfails⟩

end TileFlow
