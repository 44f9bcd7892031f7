import TileFlow.Proofs.Emit.HostSources
import TileFlow.Proofs.Program.Links
import TileFlow.Proofs.Routing.Wires
import TileFlow.Proofs.Stage.Idempotent

/-!
# Routed programs can be translated

In a canonical program circuits are all that is left to route, and when the host's pipeline has laid
them no stream is left in any device. What sat on a tile still does, every switchbox that a router
added sits on a tile, and every route leads from a channel to a channel, if those of the source do.

There is no summary of a device that has a stream left, something to set up that sits on no tile, a
lock without identifier, a buffer without address or a route without channels. None of this is left
when both pipelines are through with a source, whatever the routers had to add.

## Main definitions

* `EditRule.hosted`: the edits of both pipelines, from where locks are numbered.
* `routeNames`: the operations that describe routes.
* `Program.Translatable`: the devices that have all that a summary needs.

## Main results

* `host_circuits`: the host's pipeline lays circuits, and nothing else.
* `Program.Edits.seated`: new switchboxes sit on tiles.
* `LoweringRun.host_placed`: what sat on a tile still does.
* `LoweringRun.host_channels`: the channels of routes.
* `Program.Translatable.exists_summary`: these devices have summaries.
* `host_translatable`: the host's sources for a routed program.
-/

/-! ## Routing for the host -/

namespace TileFlow

open TileFlow.Action

variable {rule : EditRule} {base p q l r m : Program} {names : List String} {id : OpId}
  {parent : Option OpId} {op : Operation}

/-! ### The host's pipeline -/

/-- The host's pipeline lays circuits in a program without other streams, and leaves none. -/
theorem host_circuits (hm : m.Sound)
    (hlowered : ∀ device ∈ m.devices, ∀ id ∈ m.walkIn device, (m.op id).name ∉ loweredNames)
    (h : Pipeline.host.run m = (.ok (), q)) : m.Edits .circuits q ∧
      ∀ device ∈ q.devices, ∀ id ∈ q.walkIn device, (q.op id).name ∉ "aie.flow" ::
    loweredNames := by
  obtain ⟨r, hcircuits, h⟩ := Pipeline.runStages_cons_ok.1 h
  obtain ⟨s, hbroadcasts, h⟩ := Pipeline.runStages_cons_ok.1 h
  obtain ⟨t, hpackets, h⟩ := Pipeline.runStages_cons_ok.1 h
  obtain ⟨u, hmulticasts, h⟩ := Pipeline.runStages_cons_ok.1 h
  obtain ⟨-, rfl⟩ : _ ∧ u = q := Prod.mk.inj h
  obtain ⟨hr, hflows⟩ := routeCircuitFlows_edits hm hcircuits
  have hgone : ∀ device ∈ r.devices, ∀ id ∈ r.walkIn device, (r.op id).name ∉ loweredNames :=
    fun device hdevice => hr.forall_walkIn
      (EditRule.circuits_names.keeps (N := fun name => name ∉ loweredNames) (by decide)) hm
      (Program.mem_walk_of_mem_devices hdevice)
      (hlowered device ((hr.mem_devices EditRule.circuits_sparesDevices hm).1 hdevice))
  have hidle : ∀ name ∈ loweredNames, ∀ device ∈ r.devices, ∀ id ∈ r.walkIn device,
      (r.op id).is name = false := fun name hname device hdevice id hid =>
    beq_eq_false_iff_ne.2 fun heq => hgone device hdevice id hid (heq ▸ hname)
  -- The other stages find nothing to do.
  obtain ⟨-, rfl⟩ := Prod.mk.inj
    (hbroadcasts.symm.trans (Stage.findIn_idle (hidle "aiex.broadcast_packet" (by decide))))
  obtain ⟨-, rfl⟩ := Prod.mk.inj
    (hpackets.symm.trans (Stage.findIn_idle (hidle "aie.packet_flow" (by decide))))
  obtain ⟨-, rfl⟩ := Prod.mk.inj
    (hmulticasts.symm.trans (Stage.findIn_idle (hidle "aiex.multicast" (by decide))))
  refine ⟨hr, fun device hdevice id hid hmem => ?_⟩
  rcases List.mem_cons.1 hmem with heq | hmem
  · exact absurd heq (beq_eq_false_iff_ne.1 (hflows device hdevice id hid))
  · exact hgone device hdevice id hid hmem

/-! ### The rules -/

/-- The operations that describe routes in switchboxes. -/
def routeNames : List String :=
  ["aie.connect", "aie.packet_rule"]

/-- What is created on the way to the canonical form: parts of processes, parts of FIFOs, routes of
packets with what they need, and streams. -/
theorem EditRule.fromLockIds_creates_cases (h : EditRule.fromLockIds.creates p parent op) :
    EditRule.processes.creates p parent op ∨ EditRule.fifos.creates p parent op ∨
      EditRule.packets.creates p parent op ∨
      op.name ∈ ["aie.packet_flow", "aie.packet_source", "aie.packet_dest", "aie.flow"] := by
  obtain ⟨rule, hrule, hop⟩ := h
  simp only [List.mem_cons, List.not_mem_nil, or_false] at hrule
  rcases hrule with rfl | rfl
  · obtain ⟨rule, hrule, hop⟩ := hop
    simp only [List.mem_cons, List.not_mem_nil, or_false] at hrule
    rcases hrule with rfl | rfl | rfl
    · exact hop.elim
    · exact .inl hop
    · exact .inr (.inl hop)
  · obtain ⟨rule, hrule, hop⟩ := hop
    simp only [List.mem_cons, List.not_mem_nil, or_false] at hrule
    rcases hrule with rfl | rfl | rfl | rfl | rfl
    · refine .inr (.inr (.inr ?_))
      exact List.mem_append_left ["aie.flow"] (broadcasts_names.creates p parent op hop)
    · exact .inr (.inr (.inl hop))
    · refine .inr (.inr (.inr ?_))
      exact List.mem_append_right ["aie.packet_flow", "aie.packet_source", "aie.packet_dest"]
        (multicasts_names.creates p parent op hop)
    · exact hop.elim
    · exact hop.elim

/-- What is created on the way to the canonical form, and is no part of a process. -/
theorem EditRule.fromLockIds_creates_process (h : EditRule.fromLockIds.creates p parent op) :
    EditRule.processes.creates p parent op ∨
      op.name ∈ fifoPartNames ++ ["aie.tile", "aie.switchbox", "aie.packet_rule"] ++
        ["aie.packet_flow", "aie.packet_source", "aie.packet_dest", "aie.flow"] := by
  rcases fromLockIds_creates_cases h with hop | hop | hop | hmem
  · exact .inl hop
  · exact .inr (List.mem_append_left _ (List.mem_append_left _ (fifos_name_mem hop)))
  · exact .inr (List.mem_append_left _ (List.mem_append_right _
      (packets_names.creates p parent op hop)))
  · exact .inr (List.mem_append_right _ hmem)

/-- The edits of the pipeline to the canonical form from where locks are numbered, and those of the
host's pipeline. -/
def EditRule.hosted : EditRule :=
  .any [.fromLockIds, .circuits]

/-- The stages for the host leave the operands of what they do not change. -/
theorem EditRule.hosted_leavesOperands {name : String} (hname : name ∉ changedNames) :
    EditRule.hosted.LeavesOperands name :=
  any_leavesOperands (by
    have hcircuits : circuits.LeavesOperands name :=
      leavesOperands_of_unchanged fun _ _ _ hop => hop
    simp [fromLockIds_leavesOperands hname, hcircuits])

/-- Tiles are created right in devices, switchboxes on tiles, and routes with their channels. -/
theorem EditRule.hosted_creates_cases (h : EditRule.hosted.creates p parent op)
    (hname : op.name ∈ "aie.tile" :: "aie.switchbox" :: routeNames) :
    (op.is "aie.tile" = true ∧ ∃ device ∈ p.devices, parent = some device) ∨
      (op.is "aie.switchbox" = true ∧ p.Seats op) ∨
      (op.name ∈ routeNames ∧ op.channels?.isSome = true) := by
  obtain ⟨rule, hrule, hop⟩ := h
  simp only [List.mem_cons, List.not_mem_nil, or_false] at hrule
  rcases hrule with rfl | rfl
  · have hnot : ∀ {names : List String}, op.name ∈ names →
        ¬ ∀ name ∈ names, name ∉ "aie.tile" :: "aie.switchbox" :: routeNames :=
      fun hmem hnames => hnames _ hmem hname
    rcases fromLockIds_creates_cases hop with hop | hop | hop | hmem
    · exact absurd (by decide) (hnot hop.2.1)
    · exact absurd (by decide) (hnot (fifos_name_mem hop))
    · rcases hop with htile | ⟨hseats, hbox⟩ | ⟨_, _, _, rfl, -⟩
      · exact .inl htile
      · exact .inr (.inl ⟨hbox, hseats⟩)
      · exact .inr (.inr ⟨by simp [packetRule, connection, Operation.withAttr, routeNames], rfl⟩)
    · exact absurd (by decide) (hnot hmem)
  · rcases hop with htile | ⟨hseats, hbox⟩ | ⟨_, _, rfl⟩
    · exact .inl htile
    · exact .inr (.inl ⟨hbox, hseats⟩)
    · exact .inr (.inr ⟨by simp [connection, routeNames], rfl⟩)

/-- The stages for the host keep what stands on tiles, apart from flows and what is discarded. -/
theorem EditRule.hosted_keepsTiles :
    EditRule.hosted.KeepsTiles ("aie.flow" :: discardedNames) where
  values := any_keepsValues (by
    have hcanonical : fromLockIds.KeepsValues ("aie.flow" :: discardedNames) :=
      fromLockIds_keepsValues.cons (fromLockIds_leavesOperands (by decide)).is_eq
    have hcircuits : circuits.KeepsValues ("aie.flow" :: discardedNames) :=
      keepsValues_of_unchanged "aie.flow" (by decide) (fun _ _ _ hop => hop) fun _ _ hop => hop
    simp [hcanonical, hcircuits])
  devices := any_sparesDevices (by simp [fromLockIds_sparesDevices, circuits_sparesDevices])
  creates p parent op hop htile := by
    rcases hosted_creates_cases hop (by simp [beq_iff_eq.1 htile]) with h | ⟨h, -⟩ | ⟨h, -⟩
    · exact h.2
    · exact absurd (Operation.is_inj h htile) (by decide)
    · exact absurd (Operation.mem_of_is h htile) (by decide)
  spares := by decide

/-- Switchboxes are created on tiles. -/
theorem EditRule.hosted_seats (h : EditRule.hosted.creates p parent op)
    (hbox : op.is "aie.switchbox" = true) : p.Seats op := by
  rcases hosted_creates_cases h (by simp [beq_iff_eq.1 hbox]) with ⟨h, -⟩ | ⟨-, h⟩ | ⟨h, -⟩
  · exact absurd (Operation.is_inj h hbox) (by decide)
  · exact h
  · exact absurd (Operation.mem_of_is h hbox) (by decide)

/-- Routes are created with their channels. -/
theorem EditRule.hosted_channels (h : EditRule.hosted.creates p parent op)
    (hroute : op.name ∈ routeNames) : op.channels?.isSome = true := by
  rcases hosted_creates_cases h (by simp [hroute]) with ⟨h, -⟩ | ⟨h, -⟩ | ⟨-, h⟩
  · exact absurd (beq_iff_eq.1 h ▸ hroute) (by decide)
  · exact absurd (beq_iff_eq.1 h ▸ hroute) (by decide)
  · exact h

/-! ### New operations -/

/-- A new operation with a name that edits leave alone has the operands that it was created with. -/
theorem Program.Edits.exists_operands {name : String} (hleaves : rule.LeavesOperands name)
    (hp : p.Sound) (h : p.Edits rule q) (hid : id < q.slots.size) (hnew : p.slots.size ≤ id)
    (hname : (q.op id).is name = true) : ∃ r parent op, p.Edits rule r ∧ rule.creates r parent op ∧
      r.Edits rule q ∧ op.is name = true ∧ (q.op id).operands = op.operands := by
  obtain ⟨r, s, parent, op, hr, hop, hrs, hsq, hids, hheader⟩ := h.exists_creation hp hid hnew
  obtain ⟨hnames, hoperands⟩ :=
    hsq.operands_of_is hleaves (hrs.sound (hr.sound hp)) hids hname
  exact ⟨r, parent, op, hr, hop, hrs.trans hsq, (hheader.is name).symm.trans hnames,
    hoperands.trans hheader.operands⟩

/-- A switchbox that edits create on a tile goes on to sit on it. -/
theorem Program.Edits.seated (hrule : rule.KeepsTiles names)
    (hleaves : rule.LeavesOperands "aie.switchbox")
    (hseats : ∀ p parent op, rule.creates p parent op → op.is "aie.switchbox" = true → p.Seats op)
    (hbase : base.Sound) (hvalues : base.definedValues.Nodup) (hnone : base.DefinesNone names)
    (h : base.Edits rule q) (hid : id < q.slots.size) (hnew : base.slots.size ≤ id)
    (hname : (q.op id).is "aie.switchbox" = true) : ∃ tile, q.owningTile? id = some tile := by
  obtain ⟨r, parent, op, hr, hop, hrq, hbox, hoperands⟩ :=
    h.exists_operands hleaves hbase hid hnew hname
  obtain ⟨-, v, d, hv, hd, hresult, hdname, hcoordinates⟩ := hseats r parent op hop hbox
  obtain ⟨tile, htile⟩ := Option.isSome_iff_exists.1 hcoordinates
  have hvr : r.tileOf? v = some tile := Program.tileOf?_eq_some.2
    ⟨d, (Program.definingOp?_eq_some_iff (hr.nodup hbase hvalues)).2 ⟨hd, hresult⟩, hdname, htile⟩
  have hoperand : (q.op id).operandValue? 0 = some v := by
    rw [Operation.operandValue?, hoperands, hv]
    rfl
  refine ⟨tile, ?_⟩
  rw [Program.owningTile?_eq, hoperand, Option.bind_some]
  exact Program.placeOf?_of_tileOf?
    (Program.Edits.tileOf?_kept hrule hbase hvalues hnone hr hrq hvr)

/-! ### Routes of the source -/

/-- The channels of an operation are read off its operands. -/
theorem Operation.channels?_congr {a b : Operation} (h : b.operands = a.operands) :
    b.channels? = a.channels? := by
  simp only [channels?, operandText?, operandInt?, h]

/-- The first two stages leave the operations where they are, apart from the device around them. -/
theorem LoweringRun.base_children (c : LoweringRun p l) : c.base.Tree ∧
    ∀ box < p.slots.size, ∀ id < p.slots.size, id ∈ c.base.children (some box) →
      id ∈ p.children (some box) := by
  obtain ⟨hedits, hdetached, -⟩ := lowerAffine_edits c.sound c.affine_run
  have htree : p.Tree := c.sound.toWellFormed.tree c.detached
  have haside : c.affine.detached = [] := hdetached.trans c.detached
  have hold : ∀ box, ∀ id < p.slots.size, id ∈ c.affine.children (some box) →
      id ∈ p.children (some box) := fun box id hlt => hedits.mem_children htree hlt
  have hsize : c.affine.slots.size = p.slots.size := hedits.size_eq fun _ _ _ hop => hop
  rcases wrapInDevice_cases (hedits.sound c.sound) haside c.base_run with
    ⟨-, heq⟩ | ⟨-, hbody, haside', -⟩
  · rw [heq]
    exact ⟨hedits.tree htree, fun box _ => hold box⟩
  · refine ⟨c.base_sound.toWellFormed.tree haside', fun box hbox id hid hmem => hold box id hid ?_⟩
    have hne : c.affine.slots.size ≠ box := hsize ▸ (Nat.ne_of_lt hbox).symm
    rw [Program.children, Program.block, Program.below, hbody, Forest.single, Forest.below?,
      if_neg hne, Forest.below?, Option.or_none, haside'] at hmem
    rw [Program.children, Program.block, Program.below, haside]
    exact hmem

/-- The first two stages give no operation a name that is neither an affine one nor one that
replaces an affine one, and change no operands. -/
theorem LoweringRun.base_operands_of_is (c : LoweringRun p l) {name : String}
    (haffine : ∀ pair ∈ affineNames, pair.1 ≠ name ∧ pair.2 ≠ name) (hdevice : "aie.device" ≠ name)
    (hid : id < c.base.slots.size) (hname : (c.base.op id).is name = true) :
    id < p.slots.size ∧ (p.op id).is name = true ∧
      (c.base.op id).operands = (p.op id).operands := by
  obtain ⟨hedits, hwraps, -⟩ := c.base_ok
  have hsize : c.affine.slots.size = p.slots.size := hedits.size_eq fun _ _ _ hop => hop
  by_cases hlt : id < p.slots.size
  · rw [hwraps.op id (hsize ▸ hlt)] at hname
    exact ⟨hlt,
      (hedits.operands_of_is (EditRule.affine_leavesOperands haffine) c.sound hlt hname).1,
      c.base_operands hlt⟩
  · rw [hwraps.new id hid (hsize ▸ Nat.le_of_not_lt hlt)] at hname
    exact absurd (beq_iff_eq.1 hname) hdevice

/-! ### The run -/

section

variable (c : LoweringRun p l) (hbuffers : runOn Stage.assignBufferAddresses.action l = (.ok (), r))
  (hstructured : runOn Stage.lowerStructured.action r = (.ok (), m))
  (hbase : ∀ id < c.base.slots.size, (c.base.op id).UsesOnly c.base.definedValues)

include hbase in
/-- The cores that processes get use the values of FIFOs, which are defined from the start. -/
theorem LoweringRun.cores_usesOnly (h : c.base.Edits .fromLockIds m) :
    ∀ id < m.slots.size, (m.op id).is "aie.core" = true →
      (m.op id).UsesOnly c.base.definedValues := by
  have hfifos : ∀ s, c.base.Edits .fromLockIds s → ∀ id < s.slots.size,
      (s.op id).is "aie.objectfifo" = true → (s.op id).UsesOnly c.base.definedValues := fun s hs =>
    hs.usesOnly (EditRule.fromLockIds_leavesOperands (by decide)) c.base_sound
      (fun t parent op _ hop hname => by
        rcases EditRule.fromLockIds_creates_process hop with hop | hmem
        · exact absurd (Operation.mem_of_is hop.2.1 hname) (by decide)
        · exact absurd (Operation.mem_of_is hmem hname) (by decide))
      fun id hid _ => hbase id hid
  refine h.usesOnly (EditRule.fromLockIds_leavesOperands (by decide)) c.base_sound
    (fun s parent op hs hop hname => ?_) fun id hid _ => hbase id hid
  rcases EditRule.fromLockIds_creates_process hop with hop | hmem
  · intro v hv
    obtain ⟨fifo, hlt, hfifo, hmem⟩ := hop.2.2 v hv
    exact hfifos s hs fifo hlt hfifo v hmem
  · exact absurd (Operation.mem_of_is hmem hname) (by decide)

include c hbuffers hstructured

/-- Cores, locks and buffers of a canonical program use values that are defined from the start. -/
theorem LoweringRun.canonical_usesOld (hnone : c.base.DefinesNone discardedNames)
    (hbase : ∀ id < c.base.slots.size, (c.base.op id).UsesOnly c.base.definedValues)
    {device : OpId} (hdevice : device ∈ m.devices) {name : String}
    (hname : name ∈ ["aie.core", "aie.lock", "aie.buffer"]) (hid : id ∈ m.findIn device name) :
    ∀ v, (m.op id).operandValue? 0 = some v → v ∈ c.base.definedValues := by
  have hedits := c.fromLockIds_edits hbuffers hstructured
  obtain ⟨hin, his⟩ := List.mem_filter.1 hid
  have hlt := (hedits.sound c.base_sound).lt_size_of_walkIn hin
  simp only [List.mem_cons, List.not_mem_nil, or_false] at hname
  rcases hname with rfl | rfl | rfl
  · exact fun v => (c.cores_usesOnly hbase hedits id hlt his).operandValue?
  · -- The tile of a lock is known when locks are numbered.
    intro v hv
    obtain ⟨tile, n, hslot, -⟩ := (c.numbered_canonical hnone
      (c.afterFifos_edits hbuffers hstructured) device hdevice).placed id hid
    obtain ⟨⟨w, hw, hplace⟩, -⟩ := Program.lockSlot?_eq_some.1 hslot
    obtain rfl := Option.some.inj (hv.symm.trans hw)
    obtain ⟨d, hdef, -⟩ := Option.bind_eq_some_iff.1 hplace
    exact Program.mem_definedValues.2 ⟨d, Program.mem_walk_of_definingOp? hdef⟩
  · have hrs := (c.laidOut_edits hbuffers).sound c.base_sound
    exact fun v => ((lowerStructured_edits hrs hstructured).1.usesOnly
      (EditRule.structured_leavesOperands (by decide)) hrs (fun _ _ _ _ hop => hop.elim)
      (c.buffers_usesOnly hbase hbuffers) id hlt his).operandValue?

variable (hhost : Pipeline.host.run m = (.ok (), q))

include hhost

/-- The host's pipeline lays circuits in the canonical program, and leaves no stream. -/
theorem LoweringRun.host_circuits : m.Edits .circuits q ∧ ∀ device ∈ q.devices,
    ∀ id ∈ q.walkIn device, (q.op id).name ∉ "aie.flow" :: loweredNames :=
  TileFlow.host_circuits ((c.fromLockIds_edits hbuffers hstructured).sound c.base_sound)
    (canonical_of_lowered c.lowered hbuffers hstructured).lowered hhost

/-- The edits of both pipelines. -/
theorem LoweringRun.hosted_edits : c.base.Edits .hosted m ∧ m.Edits .hosted q :=
  ⟨(c.fromLockIds_edits hbuffers hstructured).any (by simp),
    (c.host_circuits hbuffers hstructured hhost).1.any (by simp)⟩

/-- The routes of a routed program have their channels, if those of the source do. -/
theorem LoweringRun.host_channels {box : OpId}
    (hroutes : ∀ box < p.slots.size, (p.op box).is "aie.switchbox" = true →
      ∀ id ∈ p.children (some box), (p.op id).name ∈ routeNames → (p.op id).channels?.isSome = true)
    (hwalk : box ∈ q.walk) (hbox : (q.op box).is "aie.switchbox" = true)
    (hid : id ∈ q.children (some box)) (hroute : (q.op id).name ∈ routeNames) :
    (q.op id).channels?.isSome = true := by
  obtain ⟨hm, hq⟩ := c.hosted_edits hbuffers hstructured hhost
  have hedits := hm.trans hq
  have hev := hedits.evolves c.base_sound
  have hbelow := Program.mem_walkIn_of_mem_children hid
  have hleaves : ∀ name ∈ "aie.switchbox" :: routeNames,
      EditRule.hosted.LeavesOperands name ∧ "aie.device" ≠ name ∧
        ∀ pair ∈ affineNames, pair.1 ≠ name ∧ pair.2 ≠ name := fun name hname =>
    have hnot : ∀ name ∈ "aie.switchbox" :: routeNames, name ∉ changedNames ∧
      "aie.device" ≠ name ∧ ∀ pair ∈ affineNames, pair.1 ≠ name ∧ pair.2 ≠ name := by decide
    ⟨EditRule.hosted_leavesOperands (hnot name hname).1, (hnot name hname).2⟩
  obtain ⟨hrule, hdevice, haffine⟩ := hleaves _ (List.mem_cons_of_mem _ hroute)
  have his : (q.op id).is (q.op id).name = true := beq_iff_eq.2 rfl
  by_cases hlt : id < c.base.slots.size
  · obtain ⟨hname, hoperands⟩ := hedits.operands_of_is hrule c.base_sound hlt his
    obtain ⟨hltp, hnamep, hoperandsp⟩ := c.base_operands_of_is haffine hdevice hlt hname
    have hltbox : box < c.base.slots.size :=
      ((hev.walkIn box hwalk id (hev.sound.toWellFormed.mem_walk_of_walkIn hwalk hbelow) hlt).1
        hbelow).1
    obtain ⟨hrule', hdevice', haffine'⟩ := hleaves "aie.switchbox" List.mem_cons_self
    obtain ⟨hltboxp, hboxp, -⟩ := c.base_operands_of_is haffine' hdevice' hltbox
      (hedits.operands_of_is hrule' c.base_sound hltbox hbox).1
    obtain ⟨htree, hchildren⟩ := c.base_children
    rw [Operation.channels?_congr (hoperands.trans hoperandsp)]
    exact hroutes box hltboxp hboxp id
      (hchildren box hltboxp id hltp (hedits.mem_children htree hlt hid))
      (beq_iff_eq.1 hnamep ▸ hroute)
  · obtain ⟨s, parent, op, -, hop, -, hname, hoperands⟩ := hedits.exists_operands hrule c.base_sound
      (hev.sound.lt_size_of_walkIn hbelow) (Nat.le_of_not_lt hlt) his
    rw [Operation.channels?_congr hoperands]
    exact EditRule.hosted_channels hop (beq_iff_eq.1 hname ▸ hroute)

variable (hflows : c.base.DefinesNone ("aie.flow" :: discardedNames))

include hflows

/-- What uses values of the start stays on its tile. -/
theorem LoweringRun.host_kept {tile : Tile} (hlt : id < m.slots.size)
    (huses : ∀ v, (m.op id).operandValue? 0 = some v → v ∈ c.base.definedValues)
    (htile : m.owningTile? id = some tile) : q.owningTile? id = some tile :=
  have hedits := c.hosted_edits hbuffers hstructured hhost
  Program.Edits.owningTile?_kept EditRule.hosted_keepsTiles c.base_sound c.base_values hflows
    hedits.1 hedits.2 hlt huses htile

include hbase

/-- Cores, locks and buffers of the routed program sit on tiles, if the cores do before. -/
theorem LoweringRun.host_placed {device : OpId} (hdevice : device ∈ q.devices)
    (hcores : ∀ device ∈ m.devices, ∀ core ∈ m.findIn device "aie.core",
      (m.owningTile? core).isSome = true) {name : String}
    (hname : name ∈ ["aie.core", "aie.lock", "aie.buffer"]) (hid : id ∈ q.findIn device name) :
    ∃ tile, q.owningTile? id = some tile := by
  have hsettled := c.settled hflows.of_cons hbuffers hstructured hbase
  have hms := (c.fromLockIds_edits hbuffers hstructured).sound c.base_sound
  obtain ⟨hcircuits, -⟩ := c.host_circuits hbuffers hstructured hhost
  have hdevicem := (hcircuits.mem_devices EditRule.circuits_sparesDevices hms).1 hdevice
  have hkept : EditRule.circuits.Keeps fun op => op.name ≠ name :=
    EditRule.circuits_names.keeps_ne fun hmem =>
      (by decide : ∀ name ∈ ["aie.core", "aie.lock", "aie.buffer"],
        name ∉ ["aie.tile", "aie.switchbox", "aie.connect"]) name hname hmem
  have hidm := hcircuits.findIn_of_old hkept hms (Program.mem_walk_of_mem_devices hdevice) hid
  have huses := c.canonical_usesOld hbuffers hstructured hflows.of_cons hbase hdevicem hname hidm
  have htile : ∃ tile, m.owningTile? id = some tile := by
    simp only [List.mem_cons, List.not_mem_nil, or_false] at hname
    rcases hname with rfl | rfl | rfl
    · exact Option.isSome_iff_exists.1 (hcores device hdevicem id hidm)
    · obtain ⟨tile, _, -, htile, -⟩ := (hsettled.numbered device hdevicem).slot hidm
      exact ⟨tile, htile⟩
    · exact hsettled.placed device hdevicem id hidm
  obtain ⟨tile, htile⟩ := htile
  exact ⟨tile, c.host_kept hbuffers hstructured hhost hflows
    (hms.lt_size_of_walkIn (List.mem_filter.1 hidm).1) huses htile⟩

/-- The switchboxes of the routed program sit on tiles, if those of before do. -/
theorem LoweringRun.host_seated {device box : OpId} (hdevice : device ∈ q.devices)
    (hboxes : ∀ device ∈ m.devices, ∀ box ∈ m.findIn device "aie.switchbox",
      (m.owningTile? box).isSome = true) (hbox : box ∈ q.findIn device "aie.switchbox") :
    ∃ tile, q.owningTile? box = some tile := by
  have hms := (c.fromLockIds_edits hbuffers hstructured).sound c.base_sound
  obtain ⟨hm, hq⟩ := c.hosted_edits hbuffers hstructured hhost
  have hdevicem := (hq.mem_devices EditRule.hosted_keepsTiles.devices hms).1 hdevice
  have hleaves : EditRule.hosted.LeavesOperands "aie.switchbox" :=
    EditRule.hosted_leavesOperands (by decide)
  obtain ⟨hin, hname⟩ := List.mem_filter.1 hbox
  by_cases hlt : box < c.base.slots.size
  · have hltm := Nat.lt_of_lt_of_le hlt (hm.size_le c.base_sound)
    have hnamem := (hq.operands_of_is hleaves hms hltm hname).1
    obtain ⟨-, hoperands⟩ := hm.operands_of_is hleaves c.base_sound hlt hnamem
    have hinm := (hq.evolves hms).mem_walkIn (Program.mem_walk_of_mem_devices hdevice) hin hltm
    obtain ⟨tile, htile⟩ := Option.isSome_iff_exists.1
      (hboxes device hdevicem box (List.mem_filter.2 ⟨hinm, hnamem⟩))
    exact ⟨tile, c.host_kept hbuffers hstructured hhost hflows hltm
      (fun _ => ((hbase box hlt).congr hoperands).operandValue?) htile⟩
  · exact (hm.trans hq).seated EditRule.hosted_keepsTiles hleaves
      (fun _ _ _ => EditRule.hosted_seats) c.base_sound c.base_values hflows
      ((hq.sound hms).lt_size_of_walkIn hin) (Nat.le_of_not_lt hlt) hname

end

end TileFlow

/-! ## Summaries of routed programs -/

namespace TileFlow

variable {p q m : Program} {device id : OpId} {op : Operation} {tile : Tile}

/-! ### Summaries -/

/-- A routed device on which everything to set up sits on a tile and is complete. -/
structure Program.Translatable (p : Program) (device : OpId) : Prop where
  routed : ∀ name ∈ unroutedNames, p.findIn device name = []
  placed : ∀ name ∈ ["aie.core", "aie.lock", "aie.buffer", "aie.switchbox"],
    ∀ id ∈ p.findIn device name, ∃ tile, p.owningTile? id = some tile
  locks : ∀ lock ∈ p.findIn device "aie.lock", ∃ n, (p.op lock).lockId? = some n
  buffers : ∀ buffer ∈ p.findIn device "aie.buffer", ∃ address,
    (p.op buffer).intAttr? "address" = some address
  routes : ∀ box ∈ p.findIn device "aie.switchbox", ∀ id ∈ p.children (some box),
    (p.op id).name ∈ routeNames → (p.op id).channels?.isSome = true

/-- A lock with tile and identifier can be summed up. -/
theorem Program.exists_lockSummary {n : Int} (htile : p.owningTile? id = some tile)
    (hn : (p.op id).lockId? = some n) : ∃ s, p.lockSummary id = .ok s := by
  have hn : (p.op id).operandInt? 1 = some n := hn
  refine ⟨⟨tile, n, ((p.op id).intAttr? "init").getD 0⟩, ?_⟩
  rw [Program.lockSummary, hn, Program.placed_ok_iff.2 htile]
  rfl

/-- A buffer with tile and address can be summed up. -/
theorem Program.exists_bufferSummary {address : Int} (htile : p.owningTile? id = some tile)
    (haddress : (p.op id).intAttr? "address" = some address) : ∃ s, p.bufferSummary id = .ok s := by
  refine ⟨⟨(p.op id).symbolName?.getD "buffer", tile, address, ((p.op id).intAttr? "size").getD 0⟩,
    ?_⟩
  rw [Program.bufferSummary, haddress, Program.placed_ok_iff.2 htile]
  rfl

/-- Channels are the two ends of a route. -/
theorem Program.exists_routeEnds (h : op.channels?.isSome = true) :
    ∃ input output, routeEnd op 0 = .ok input ∧ routeEnd op 2 = .ok output := by
  obtain ⟨channels, h⟩ := Option.isSome_iff_exists.1 h
  rw [Operation.channels?] at h
  split at h
  · rename_i bundle index bundle' index' hbundle hindex hbundle' hindex'
    refine ⟨⟨bundle, index⟩, ⟨bundle', index'⟩, ?_, ?_⟩
    · rw [routeEnd, hbundle, hindex]
    · rw [routeEnd, hbundle', hindex']
  · cases h

/-- What is no route is left out of the summary. -/
theorem Program.exists_routeSummary (h : op.name ∈ routeNames → op.channels?.isSome = true) :
    ∃ routes, routeSummary tile op = .ok routes := by
  rw [routeSummary]
  split
  · rename_i hroute
    obtain ⟨input, output, hinput, houtput⟩ := exists_routeEnds (h (by
      simpa [routeNames, Operation.is] using hroute))
    rw [hinput, houtput]
    exact ⟨_, rfl⟩
  · exact ⟨[], rfl⟩

/-- A switchbox whose routes all have channels can be summed up. -/
theorem Program.exists_switchboxRoutes {box : OpId} (htile : p.owningTile? box = some tile)
    (h : ∀ id ∈ p.children (some box), (p.op id).name ∈ routeNames →
      (p.op id).channels?.isSome = true) : ∃ routes, p.switchboxRoutes box = .ok routes := by
  have hall : ∃ routes, (p.children (some box)).mapM (fun id => routeSummary tile (p.op id)) =
      .ok routes := Except.exists_mapM_ok fun id hid => exists_routeSummary (h id hid)
  obtain ⟨routes, hroutes⟩ := hall
  refine ⟨routes.flatten, ?_⟩
  rw [Program.switchboxRoutes, Program.placed_ok_iff.2 htile]
  change (do
    let routes ← (p.children (some box)).mapM fun id => routeSummary tile (p.op id)
    pure routes.flatten) = _
  rw [hroutes]
  rfl

/-- A device that has all that a summary needs has one. -/
theorem Program.Translatable.exists_summary (h : p.Translatable device) :
    ∃ s, p.summary device = .ok s := by
  have hrouted : (unroutedNames.find? fun name => !(p.findIn device name).isEmpty) = none :=
    List.find?_eq_none.2 fun name hname => by simp [h.routed name hname]
  have hcores : ∃ cores, (p.findIn device "aie.core").mapM p.placed = .ok cores :=
    Except.exists_mapM_ok fun core hcore => by
      obtain ⟨tile, htile⟩ := h.placed "aie.core" (by simp) core hcore
      exact ⟨tile, placed_ok_iff.2 htile⟩
  have hlocks : ∃ locks, (p.findIn device "aie.lock").mapM p.lockSummary = .ok locks :=
    Except.exists_mapM_ok fun lock hlock => by
      obtain ⟨tile, htile⟩ := h.placed "aie.lock" (by simp) lock hlock
      obtain ⟨n, hn⟩ := h.locks lock hlock
      exact exists_lockSummary htile hn
  have hbuffers : ∃ buffers, (p.findIn device "aie.buffer").mapM p.bufferSummary = .ok buffers :=
    Except.exists_mapM_ok fun buffer hbuffer => by
      obtain ⟨tile, htile⟩ := h.placed "aie.buffer" (by simp) buffer hbuffer
      obtain ⟨address, haddress⟩ := h.buffers buffer hbuffer
      exact exists_bufferSummary htile haddress
  have hroutes : ∃ routes, (p.findIn device "aie.switchbox").mapM p.switchboxRoutes = .ok routes :=
    Except.exists_mapM_ok fun box hbox => by
      obtain ⟨tile, htile⟩ := h.placed "aie.switchbox" (by simp) box hbox
      exact exists_switchboxRoutes htile (h.routes box hbox)
  obtain ⟨cores, hcores⟩ := hcores
  obtain ⟨locks, hlocks⟩ := hlocks
  obtain ⟨buffers, hbuffers⟩ := hbuffers
  obtain ⟨routes, hroutes⟩ := hroutes
  refine ⟨⟨p.modelOf device, cores, locks, buffers, routes.flatten⟩, ?_⟩
  rw [Program.summary, hrouted]
  dsimp only
  rw [hcores, hlocks, hbuffers, hroutes]
  rfl

/-- With translatable devices both host sources are produced. -/
theorem Program.exists_hostSources (h : ∀ device ∈ p.devices, p.Translatable device) :
    ∃ glue config, p.hostGlue = .ok glue ∧ p.deviceConfig = .ok config := by
  obtain ⟨devices, hdevices⟩ :=
    Except.exists_mapM_ok (f := p.summary) fun device hdevice => (h device hdevice).exists_summary
  have hdevices : p.summaries = .ok devices := hdevices
  refine ⟨glueText devices, configText devices, ?_, ?_⟩
  · rw [Program.hostGlue, hdevices]
  · rw [Program.deviceConfig, hdevices]

/-! ### Routed programs -/

/-- **Routing for the host leaves nothing that cannot be translated.** When a source defines no
value in flows or in the trees that the canonical pipeline erases, both pipelines get through, the
cores and switchboxes of the canonical program sit on tiles and the routes of the source have their
channels, there are the glue and the configuration of the routed program. -/
theorem host_translatable {source : String} (hparse : Source.parse source = .ok p)
    (hnone : p.DefinesNone ("aie.flow" :: discardedNames))
    (hroutes : ∀ box ∈ p.findAll "aie.switchbox", ∀ id ∈ p.children (some box),
      (p.op id).name ∈ routeNames → (p.op id).channels?.isSome = true)
    (h : canonicalizeSource source = .ok m)
    (hplaced : ∀ device ∈ m.devices, ∀ name ∈ ["aie.core", "aie.switchbox"],
      ∀ id ∈ m.findIn device name, (m.owningTile? id).isSome = true)
    (hhost : Pipeline.host.run m = (.ok (), q)) :
    ∃ glue config, q.hostGlue = .ok glue ∧ q.deviceConfig = .ok config := by
  obtain ⟨l, r, ⟨c⟩, hbuffers, hstructured⟩ := canonicalizeSource_run hparse h
  have hflows : c.base.DefinesNone ("aie.flow" :: discardedNames) := c.base_definesNone_of
    (EditRule.affine_keepsValues.cons fun _ _ _ hop => EditRule.affine_is hop (by decide))
    (by decide) hnone
  have hbase := c.base_usesOnly hparse
  have hcanonical := canonical_of_lowered c.lowered hbuffers hstructured
  have hms := (c.fromLockIds_edits hbuffers hstructured).sound c.base_sound
  obtain ⟨hcircuits, hgone⟩ := c.host_circuits hbuffers hstructured hhost
  have hroutesp : ∀ box < p.slots.size, (p.op box).is "aie.switchbox" = true →
      ∀ id ∈ p.children (some box), (p.op id).name ∈ routeNames →
        (p.op id).channels?.isSome = true := fun box hlt hbox =>
    hroutes box (List.mem_filter.2 ⟨Source.mem_walk_of_parse hparse hlt, hbox⟩)
  refine Program.exists_hostSources fun device hdevice => ?_
  have hdevicem := (hcircuits.mem_devices EditRule.circuits_sparesDevices hms).1 hdevice
  have hwalk := Program.mem_walk_of_mem_devices hdevice
  -- Locks and buffers are not created, and not changed.
  have hold : ∀ name ∈ ["aie.lock", "aie.buffer"], ∀ id ∈ q.findIn device name,
      id ∈ m.findIn device name ∧ (m.op id).SameHeader (q.op id) := fun name hname id hid => by
    have hkept : name ∉ ["aie.tile", "aie.switchbox", "aie.connect"] :=
      (by decide : ∀ name ∈ ["aie.lock", "aie.buffer"],
        name ∉ ["aie.tile", "aie.switchbox", "aie.connect"]) name hname
    have hidm := hcircuits.findIn_of_old (EditRule.circuits_names.keeps_ne hkept) hms hwalk hid
    exact ⟨hidm, hcircuits.sameHeader hms (fun _ _ _ hop => hop)
      (hms.lt_size_of_walkIn (List.mem_filter.1 hidm).1)⟩
  refine ⟨fun name hname => ?_, fun name hname id hid => ?_, fun lock hlock => ?_,
    fun buffer hbuffer => ?_, fun box hbox id hid hroute => ?_⟩
  · refine List.filter_eq_nil_iff.2 fun id hid his => hgone device hdevice id hid ?_
    rw [beq_iff_eq.1 his]
    exact (by decide : ∀ name ∈ unroutedNames, name ∈ "aie.flow" :: loweredNames) name hname
  · by_cases hbox : name = "aie.switchbox"
    · subst hbox
      exact c.host_seated hbuffers hstructured hbase hhost hflows hdevice
        (fun device hdevice => hplaced device hdevice "aie.switchbox" (by simp)) hid
    · refine c.host_placed hbuffers hstructured hbase hhost hflows hdevice
        (fun device hdevice => hplaced device hdevice "aie.core" (by simp)) ?_ hid
      simpa [hbox] using hname
  · obtain ⟨hlockm, hheader⟩ := hold "aie.lock" (by simp) lock hlock
    obtain ⟨n, hn⟩ := hcanonical.locks device hdevicem lock hlockm
    refine ⟨n, ?_⟩
    rw [Operation.lockId?, Operation.operandInt?, hheader.operands]
    exact hn
  · obtain ⟨hbufferm, hheader⟩ := hold "aie.buffer" (by simp) buffer hbuffer
    obtain ⟨-, address, -, -, haddress, -⟩ := hcanonical.buffers device hdevicem buffer hbufferm
    refine ⟨address, ?_⟩
    rw [Operation.intAttr?, Operation.attr?, hheader.attributes]
    exact haddress
  · obtain ⟨hin, hname⟩ := List.mem_filter.1 hbox
    exact c.host_channels hbuffers hstructured hhost hroutesp
      ((hcircuits.sound hms).toWellFormed.mem_walk_of_walkIn hwalk hin) hname hid hroute

/-- A device with a core, a lock, a switchbox that has a route, a FIFO and packets that cross a tile
which has no value yet. -/
def hostedSource : String :=
  "aie.device(ipu) \x7b %a = aie.tile(0, 2) %b = aie.tile(0, 4) %l = aie.lock(%a)\n" ++
  "aie.core(%a) \x7b aie.end \x7d aie.switchbox(%b) \x7b aie.connect(North, 0, DMA, 1) \x7d\n" ++
  "aie.objectfifo(%a, %b) \x7bsize = 16, sym_name = f\x7d\n" ++
  "aie.packet_flow(1) \x7b aie.packet_source(%a, DMA, 1) aie.packet_dest(%b, DMA, 1) \x7d \x7d"

/-- The routers add two switchboxes, and three connections in all of them. -/
theorem host_translatable_crossing : ∃ p m q glue config, Source.parse hostedSource = .ok p ∧
    p.DefinesNone ("aie.flow" :: discardedNames) ∧
    (∀ box ∈ p.findAll "aie.switchbox", ∀ id ∈ p.children (some box),
      (p.op id).name ∈ routeNames → (p.op id).channels?.isSome = true) ∧
    canonicalizeSource hostedSource = .ok m ∧
    (∀ device ∈ m.devices, ∀ name ∈ ["aie.core", "aie.switchbox"],
      ∀ id ∈ m.findIn device name, (m.owningTile? id).isSome = true) ∧
    Pipeline.host.run m = (.ok (), q) ∧
    ((q.findAll "aie.switchbox").length = 3 ∧ (q.findAll "aie.connect").length = 4) ∧
    q.hostGlue = .ok glue ∧ q.deviceConfig = .ok config := by
  have hsource : ∃ p, Source.parse hostedSource = .ok p ∧
      p.DefinesNone ("aie.flow" :: discardedNames) ∧
      ∀ box ∈ p.findAll "aie.switchbox", ∀ id ∈ p.children (some box),
        (p.op id).name ∈ routeNames → (p.op id).channels?.isSome = true :=
    exists_ok_of_any (by decide +kernel)
  have hcanonical : ∃ m, canonicalizeSource hostedSource = .ok m ∧
      (∀ device ∈ m.devices, ∀ name ∈ ["aie.core", "aie.switchbox"],
        ∀ id ∈ m.findIn device name, (m.owningTile? id).isSome = true) ∧
      (Pipeline.host.run m).1.toOption = some () ∧
      ((Pipeline.host.run m).2.findAll "aie.switchbox").length = 3 ∧
      ((Pipeline.host.run m).2.findAll "aie.connect").length = 4 :=
    exists_ok_of_any (by decide +kernel)
  obtain ⟨p, hp, hnone, hroutes⟩ := hsource
  obtain ⟨m, hm, hplaced, hok, hcounts⟩ := hcanonical
  have hrun := Pipeline.run_eq_ok hok
  obtain ⟨glue, config, hglue, hconfig⟩ := host_translatable hp hnone hroutes hm hplaced hrun
  exact ⟨p, m, _, glue, config, hp, hnone, hroutes, hm, hplaced, hrun, hcounts, hglue, hconfig⟩

/-- A tile that is named in the region of an affine terminator is lost with it, although none of the
other operations that are erased defines a value, and the lock on it is without a place in both
sources. -/
theorem host_untranslatable_lost_tile : ∃ source p m q, Source.parse source = .ok p ∧
    p.DefinesNone ("aie.flow" :: erasedNames) ∧
    (∀ box ∈ p.findAll "aie.switchbox", ∀ id ∈ p.children (some box),
      (p.op id).name ∈ routeNames → (p.op id).channels?.isSome = true) ∧
    canonicalizeSource source = .ok m ∧
    (∀ device ∈ m.devices, ∀ name ∈ ["aie.core", "aie.switchbox"],
      ∀ id ∈ m.findIn device name, (m.owningTile? id).isSome = true) ∧
    Pipeline.host.run m = (.ok (), q) ∧
    q.hostGlue = .error (.emission "xaie" (.unplaced "aie.lock")) ∧
    q.deviceConfig = .error (.emission "cdo" (.unplaced "aie.lock")) := by
  let source :=
    "aie.device(ipu) \x7b affine.yield \x7b %t = aie.tile(0, 2) \x7d %l = aie.lock(%t) \x7d"
  have hsource : ∃ p, Source.parse source = .ok p ∧ p.DefinesNone ("aie.flow" :: erasedNames) ∧
      ∀ box ∈ p.findAll "aie.switchbox", ∀ id ∈ p.children (some box),
        (p.op id).name ∈ routeNames → (p.op id).channels?.isSome = true :=
    exists_ok_of_any (by decide +kernel)
  have hcanonical : ∃ m, canonicalizeSource source = .ok m ∧
      (∀ device ∈ m.devices, ∀ name ∈ ["aie.core", "aie.switchbox"],
        ∀ id ∈ m.findIn device name, (m.owningTile? id).isSome = true) ∧
      (Pipeline.host.run m).1.toOption = some () ∧
      (Pipeline.host.run m).2.summaries = .error (.unplaced "aie.lock") :=
    exists_ok_of_any (by decide +kernel)
  obtain ⟨p, hp, hnone, hroutes⟩ := hsource
  obtain ⟨m, hm, hplaced, hok, hsummaries⟩ := hcanonical
  refine ⟨source, p, m, _, hp, hnone, hroutes, hm, hplaced, Pipeline.run_eq_ok hok, ?_, ?_⟩
  · rw [Program.hostGlue, hsummaries]
  · rw [Program.deviceConfig, hsummaries]

end TileFlow
