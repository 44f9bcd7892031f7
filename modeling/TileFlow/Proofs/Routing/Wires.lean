import TileFlow.Proofs.Stage.Values

/-!
# Wires between tiles

Two routers lay connections in switchboxes, and both lead to neighbouring tiles. Packets do so on
channel 0 only, so that a circuit on any other channel has the wire to itself. The router of
circuits does not look at the rules of packets, and starts from channel 0 too.

## Main definitions

* `EditRule.circuits`: the edits of the stage that routes circuits.
* `Program.Drives`: the wires that the switchboxes of a device drive.
* `EditRule.SparesWires`: edits that lead packets to neighbouring tiles on channel 0 only.

## Main results

* `routeCircuitFlows_edits`: what the stage does.
* `Program.Edits.sparesWires`: where new rules lead.
* `canonicalizeSource_host_wires`: packets share channel 0 of every wire.
-/

namespace TileFlow

open TileFlow.Action

variable {rule : EditRule} {p q : Program} {device : OpId} {names : List String}

/-! ### Circuits -/

/-- Flows are erased. Tiles, switchboxes and connections are created, the tiles right in devices and
the switchboxes on tiles. -/
def EditRule.circuits : EditRule where
  creates p parent op := (op.is "aie.tile" = true ∧ ∃ device ∈ p.devices, parent = some device) ∨
    (p.Seats op ∧ op.is "aie.switchbox" = true) ∨
    ∃ input output, op = connection "aie.connect" input output
  changes _ _ _ := False
  erases p id := (p.op id).is "aie.flow" = true

/-- What routing flows creates, by name. -/
theorem EditRule.circuits_names :
    EditRule.circuits.Names ["aie.tile", "aie.switchbox", "aie.connect"] where
  creates _ _ op hop := by
    rcases hop with ⟨h, -⟩ | ⟨-, h⟩ | ⟨_, _, rfl⟩
    · simp [beq_iff_eq.1 h]
    · simp [beq_iff_eq.1 h]
    · simp [connection]
  changes _ _ _ hop := hop.elim

/-- Routing flows leaves devices alone. -/
theorem EditRule.circuits_sparesDevices : EditRule.circuits.SparesDevices where
  creates p parent op hop := Operation.not_is_of_mem (circuits_names.creates p parent op hop)
    (by decide)
  changes _ _ _ hop := hop.elim
  erases _ _ hop := Operation.not_is_of_is hop (by decide)

/-- Routing flows leaves none of them. -/
theorem EditRule.circuits_dissolves : EditRule.circuits.Dissolves "aie.flow" where
  creates p parent op hop := Operation.not_is_of_mem (circuits_names.creates p parent op hop)
    (by decide)
  changes _ _ _ hop := hop.elim
  erases _ _ hop := hop

/-- A switchbox for circuits is created by the rules. -/
theorem circuitBox_edits {tile : Tile} {box : OpId} (hp : p.Sound) (hdevice : device ∈ p.devices)
    (h : runOn (switchboxFor device tile) p = (.ok box, q)) : p.Edits .circuits q :=
  switchboxFor_edits (fun _ h _ => .inl ⟨h, device, hdevice, rfl⟩)
    (fun _ _ _ hseats h => .inr (.inl ⟨hseats hp hdevice, h⟩)) h

/-- A circuit is laid by the rules. -/
theorem layCircuit_edits {l l' : ChannelLedger} {input output : Channel} {path : List Tile}
    (hp : p.Sound) (hdevice : device ∈ p.devices)
    (h : runOn (layCircuit device output l input path) p = (.ok l', q)) : p.Edits .circuits q := by
  have hconnect : ∀ {box id : OpId} {input output : Channel} {p q : Program},
      runOn (Action.append box (connection "aie.connect" input output)) p = (.ok id, q) →
        p.Edits .circuits q := fun h =>
    append_edits h (.inr (.inr ⟨_, _, rfl⟩)) (Program.fresh_of_none rfl)
  induction path generalizing p l input with
  | nil =>
      rw [layCircuit] at h
      obtain ⟨-, rfl⟩ := pure_ok.1 h
      exact .refl
  | cons tile path ih =>
      cases path with
      | nil =>
          rw [layCircuit] at h
          obtain ⟨box, r, hrun, h⟩ := bind_ok.1 h
          obtain ⟨_, s, hrun', h⟩ := bind_ok.1 h
          obtain ⟨-, rfl⟩ := pure_ok.1 h
          exact (circuitBox_edits hp hdevice hrun).trans (hconnect hrun')
      | cons next rest =>
          rw [layCircuit] at h
          dsimp only at h
          obtain ⟨⟨channel, l₁⟩, -, h⟩ := orFail_bind_ok.1 h
          dsimp only at h
          obtain ⟨box, r, hrun, h⟩ := bind_ok.1 h
          obtain ⟨_, s, hrun', h⟩ := bind_ok.1 h
          have hs := (circuitBox_edits hp hdevice hrun).trans (hconnect hrun')
          exact hs.trans (ih (hs.sound hp)
            ((hs.mem_devices EditRule.circuits_sparesDevices hp).2 hdevice) h)

/-- Routing one flow lays a circuit by the rules and erases the flow. -/
theorem routeCircuitFlow_edits {l l' : ChannelLedger} {flow : OpId} (hp : p.Sound)
    (hdevice : device ∈ p.devices)
    (h : runOn (routeCircuitFlow device l flow) p = (.ok l', q)) :
    ∃ r, p.Edits .circuits r ∧ q = r.erase flow := by
  rw [routeCircuitFlow, get_bind_ok] at h
  dsimp only at h
  obtain ⟨source, r, hread, h⟩ := bind_ok.1 h
  obtain ⟨-, rfl⟩ := readEndpoint_ok hread
  obtain ⟨destination, r, hread', h⟩ := bind_ok.1 h
  obtain ⟨-, rfl⟩ := readEndpoint_ok hread'
  obtain ⟨-, h⟩ := ensure_bind_ok.1 h
  obtain ⟨-, h⟩ := ensure_bind_ok.1 h
  obtain ⟨l₁, r, hlay, h⟩ := bind_ok.1 h
  obtain ⟨_, s, herase, h⟩ := bind_ok.1 h
  rw [runOn_erase, Prod.mk.injEq] at herase
  obtain ⟨-, rfl⟩ := herase
  obtain ⟨-, rfl⟩ := pure_ok.1 h
  exact ⟨r, layCircuit_edits hp hdevice hlay, rfl⟩

/-- Flows are replaced by connections, and none is left in any device. -/
theorem routeCircuitFlows_edits (hp : p.Sound)
    (h : runOn Stage.routeCircuitFlows.action p = (.ok (), q)) :
    p.Edits .circuits q ∧ ∀ device ∈ q.devices, ∀ id ∈ q.walkIn device,
      (q.op id).is "aie.flow" = false := by
  have hspares := EditRule.circuits_sparesDevices
  have hgone := EditRule.circuits_dissolves
  refine Stage.onEachDevice_ok
    (D := fun device r => ∀ id ∈ r.walkIn device, (r.op id).is "aie.flow" = false)
    hspares hp h (fun device r s hr _ hdevice hrun => ?_) fun device r s hr hdevice hedits =>
      hedits.forall_walkIn hgone.keeps hr (Program.mem_walk_of_mem_devices hdevice)
  rw [routeCircuitFlows, get_bind_ok] at hrun
  obtain ⟨_, t, hloop, hrun⟩ := bind_ok.1 hrun
  obtain ⟨-, rfl⟩ := pure_ok.1 hrun
  exact Stage.dissolves_fold hspares hgone hr hdevice hloop
    fun flow l l' t u ht hedits _ _ _ hround =>
      routeCircuitFlow_edits ht ((hedits.mem_devices hspares hr).2 hdevice) hround

/-! ### Rules of packets -/

/-- The names of destinations of packets, and of rules for them. -/
def packetNames : List String :=
  ["aie.packet_dest", "aiex.bp_dest", "aie.packet_rule"]

/-- Whether an operation, if it is a destination of packets, names no side of a tile. -/
def Operation.EndsInside (op : Operation) : Prop :=
  op.name ∈ ["aie.packet_dest", "aiex.bp_dest"] →
    (op.operandText? 1).bind Direction.ofName? = none

instance (op : Operation) : Decidable op.EndsInside :=
  inferInstanceAs (Decidable (_ → _))

/-- Whether an operation, if it is a rule that leads to a neighbouring tile, does so on channel 0.
-/
def Operation.LeadsOnZero (op : Operation) : Prop :=
  op.is "aie.packet_rule" = true → ∀ d n, op.outgoing? = some (d, n) → n = 0

/-- Direction and number of the channel an operation drives. -/
theorem Operation.outgoing?_eq_some {op : Operation} {d : Direction} {n : Int} :
    op.outgoing? = some (d, n) ↔
      (op.operandText? 2).bind Direction.ofName? = some d ∧ op.operandInt? 3 = some n := by
  rw [outgoing?]
  rcases (op.operandText? 2).bind Direction.ofName? with _ | direction <;>
    rcases op.operandInt? 3 with _ | channel <;> simp

/-- What has no packets by its name neither leaves the array nor drives a wire. -/
theorem Operation.plain_of_name {op : Operation} (h : op.name ∉ packetNames) :
    op.EndsInside ∧ op.LeadsOnZero := by
  simp only [packetNames, List.mem_cons, List.not_mem_nil, or_false, not_or] at h
  refine ⟨fun hname => ?_, fun hname => absurd (beq_iff_eq.1 hname) h.2.2⟩
  simp only [List.mem_cons, List.not_mem_nil, or_false] at hname
  exact absurd hname (not_or.2 ⟨h.1, h.2.1⟩)

/-- Edits that create rules on channel 0 and destinations inside of tiles, as long as there are no
others, and make nothing else into a rule, a destination or a switchbox. -/
structure EditRule.SparesWires (rule : EditRule) : Prop where
  creates : ∀ p parent op, (∀ id < p.slots.size, (p.op id).EndsInside) →
    rule.creates p parent op → op.EndsInside ∧ op.LeadsOnZero
  changes : ∀ p id op, rule.changes p id op → op.name ∈ "aie.switchbox" :: packetNames →
    op.name = (p.op id).name ∧ op.operands = (p.op id).operands

/-- Several rules that spare the wires do so together. -/
theorem EditRule.any_sparesWires {rules : List EditRule} (h : ∀ rule ∈ rules, rule.SparesWires) :
    (any rules).SparesWires where
  creates p parent op hends := fun ⟨rule, hrule, hop⟩ =>
    (h rule hrule).creates p parent op hends hop
  changes p id op := fun ⟨rule, hrule, hop⟩ => (h rule hrule).changes p id op hop

/-- Edits that give none of the names to operations that they create, and keep the operations that
have one of them. -/
theorem EditRule.Names.sparesWires (h : rule.Names names)
    (hnames : ∀ name ∈ names, name ∉ packetNames)
    (changes : ∀ p id op, rule.changes p id op → op.name ∈ "aie.switchbox" :: packetNames →
      op.name = (p.op id).name ∧ op.operands = (p.op id).operands) : rule.SparesWires where
  creates p parent op _ hop := Operation.plain_of_name (hnames _ (h.creates p parent op hop))
  changes := changes

/-- A rule that changes nothing and creates no packet rule spares the wires. -/
theorem EditRule.Names.sparesWires_of_unchanged (h : rule.Names names)
    (hnames : ∀ name ∈ names, name ∉ packetNames)
    (changes : ∀ p id op, ¬ rule.changes p id op) : rule.SparesWires :=
  h.sparesWires hnames fun p id op hop => absurd hop (changes p id op)

/-- Lowering affine operations spares the wires. -/
theorem EditRule.affine_sparesWires : EditRule.affine.SparesWires := by
  have hnames : ∀ pair ∈ affineNames, pair.2 ∉ "aie.switchbox" :: packetNames := by decide
  refine affine_names.sparesWires (by decide) fun p id op hop hmem => ?_
  subst hop
  rcases (p.op id).renamed_affine with h | ⟨old, new, hpair, -, h⟩
  · rw [h]
    exact ⟨rfl, rfl⟩
  · rw [h] at hmem
    exact absurd hmem (hnames (old, new) hpair)

/-- Giving locks identifiers spares the wires. -/
theorem EditRule.lockIds_sparesWires : EditRule.lockIds.SparesWires :=
  lockIds_names.sparesWires (by decide) fun p id op hop hmem => by
    obtain ⟨hname, -, v, n, -, rfl⟩ := hop
    have hmem : (p.op id).name ∈ _ := hmem
    rw [beq_iff_eq.1 hname] at hmem
    exact absurd hmem (by decide)

/-- Lowering FIFOs spares the wires. -/
theorem EditRule.fifos_sparesWires : EditRule.fifos.SparesWires :=
  fifos_names.sparesWires (by decide) fun p id op hop hmem => by
    obtain ⟨name, locks, rfl⟩ := hop
    rcases lowerAccess_cases name locks (p.op id) with h | ⟨-, -, h, -⟩
    · rw [h]
      exact ⟨rfl, rfl⟩
    · rw [h] at hmem
      exact absurd hmem (by decide)

/-- Giving buffers addresses spares the wires. -/
theorem EditRule.addresses_sparesWires : EditRule.addresses.SparesWires :=
  addresses_names.sparesWires (by decide) fun p id op hop _ => by
    obtain ⟨-, n, -, rfl⟩ := hop
    exact ⟨rfl, rfl⟩

/-- Lowering loops spares the wires. -/
theorem EditRule.structured_sparesWires : EditRule.structured.SparesWires :=
  structured_names.sparesWires (by decide) fun p id op hop hmem => by
    have hnames : ∀ name ∈ ["cf.loop", "cf.cond"], name ∉ "aie.switchbox" :: packetNames := by
      decide
    rcases hop with ⟨-, rfl⟩ | ⟨-, rfl⟩ <;> exact absurd hmem (hnames _ (by simp))

/-- A packet flow that a broadcast becomes ends where the broadcast does. -/
theorem EditRule.broadcasts_sparesWires : EditRule.broadcasts.SparesWires where
  creates p parent op hends hop := by
    obtain ⟨-, h | h | ⟨h, d, hlt, hd, hoperands⟩⟩ := hop
    · exact Operation.plain_of_name (by rw [beq_iff_eq.1 h]; decide)
    · exact Operation.plain_of_name (by rw [beq_iff_eq.1 h]; decide)
    · refine ⟨fun _ => ?_, fun hname => ?_⟩
      · rw [Operation.operandText?, hoperands]
        exact hends d hlt (by rw [beq_iff_eq.1 hd]; decide)
      · exact absurd (Operation.is_inj h hname) (by decide)
  changes _ _ _ hop := hop.elim

/-- A rule leads to the next tile on channel 0, or to a destination, which is no side of a tile. -/
theorem EditRule.packets_sparesWires : EditRule.packets.SparesWires where
  creates p parent op hends hop := by
    rcases hop with ⟨h, -⟩ | ⟨-, h⟩ | ⟨id, input, output, rfl, houtput⟩
    · exact Operation.plain_of_name (by rw [beq_iff_eq.1 h]; decide)
    · exact Operation.plain_of_name (by rw [beq_iff_eq.1 h]; decide)
    · refine ⟨fun hname => absurd hname (by simp [packetRule, connection, Operation.withAttr]),
        fun _ d n hout => ?_⟩
      obtain ⟨hside, hindex⟩ := Operation.outgoing?_eq_some.1 hout
      rcases houtput with hzero | ⟨a, hlt, hname, htext⟩
      · exact (Option.some.inj hindex).symm.trans hzero
      · have hnone := hends a hlt (by rw [beq_iff_eq.1 hname]; decide)
        have hside : Direction.ofName? output.bundle = some d := hside
        rw [htext, Option.bind_some, hside] at hnone
        cases hnone
  changes _ _ _ hop := hop.elim

namespace Program

/-- New rules lead to neighbouring tiles on channel 0 only, if no destination is a side of a tile.
-/
theorem Edits.sparesWires (hrule : rule.SparesWires) (hp : p.Sound) (h : p.Edits rule q)
    (hends : ∀ id < p.slots.size, (p.op id).EndsInside) :
    ∀ id < q.slots.size, (q.op id).EndsInside ∧ (p.slots.size ≤ id → (q.op id).LeadsOnZero) := by
  have hcongr : ∀ {a b : Operation}, a.name = b.name → a.operands = b.operands →
      (a.EndsInside → b.EndsInside) ∧ (a.LeadsOnZero → b.LeadsOnZero) := fun hname hoperands => by
    simp only [Operation.EndsInside, Operation.LeadsOnZero, Operation.is, Operation.outgoing?,
      Operation.operandText?, Operation.operandInt?, hname, hoperands]
    exact ⟨id, id⟩
  refine h.forall_op (K := fun id op => op.EndsInside ∧ (p.slots.size ≤ id → op.LeadsOnZero)) hp
    (fun id a b hab hK => ?_) (fun r parent op hr hall hop => ?_) (fun r id op hr hop hK => ?_)
    fun id hid => ⟨hends id hid, fun hge => absurd hid (Nat.not_lt.2 hge)⟩
  · have hsame := hcongr hab.name.symm hab.operands.symm
    exact ⟨hsame.1 hK.1, fun hge => hsame.2 (hK.2 hge)⟩
  · obtain ⟨hends, hzero⟩ := hrule.creates r parent op (fun id hid => (hall id hid).1) hop
    exact ⟨hends, fun _ => hzero⟩
  · by_cases hmem : op.name ∈ packetNames
    · obtain ⟨hname, hoperands⟩ := hrule.changes r id op hop (List.mem_cons_of_mem _ hmem)
      have hsame := hcongr hname.symm hoperands.symm
      exact ⟨hsame.1 hK.1, fun hge => hsame.2 (hK.2 hge)⟩
    · obtain ⟨hends, hzero⟩ := Operation.plain_of_name hmem
      exact ⟨hends, fun _ => hzero⟩

/-- The rules in new switchboxes are new. -/
theorem Edits.rule_new (hrule : rule.SparesWires) (hp : p.Sound) (h : p.Edits rule q)
    (hnone : ∀ id ∈ p.walk, (p.op id).name ≠ "aie.switchbox") {box id : OpId} (hbox : box ∈ q.walk)
    (hname : (q.op box).name = "aie.switchbox") (hid : id ∈ q.walkIn box) : p.slots.size ≤ id := by
  have hev := h.evolves hp
  refine Nat.le_of_not_lt fun hlt => ?_
  obtain ⟨hltbox, -⟩ := (hev.walkIn box hbox id (hev.sound.mem_walk_of_walkIn hbox hid) hlt).1 hid
  have hold : (q.op box).name = "aie.switchbox" → (p.op box).name = "aie.switchbox" :=
    h.forall_op (K := fun id op => id < p.slots.size → op.name = "aie.switchbox" →
        (p.op id).name = "aie.switchbox") hp
      (fun _ _ _ hab hK hlt hb => hK hlt (hab.name ▸ hb))
      (fun _ _ _ hr _ _ hlt => absurd hlt (Nat.not_lt.2 (hr.size_le hp)))
      (fun r id op _ hop hK hlt hb => hK hlt
        ((hrule.changes r id op hop (hb ▸ List.mem_cons_self)).1 ▸ hb))
      (fun _ _ _ hb => hb) box (Nat.lt_of_lt_of_le hltbox hev.size) hltbox
  exact hnone box (hev.walk box hbox hltbox) (hold hname)

end Program

/-! ### The pipelines -/

/-- Whether a switchbox of a tile in a device has an operation with a name that leads to a
neighbouring tile on a channel. -/
def Program.Drives (p : Program) (device : OpId) (name : String) (tile : Tile) (d : Direction)
    (channel : Int) : Prop :=
  ∃ box ∈ p.findIn device "aie.switchbox", p.switchboxTile? box = some tile ∧
    ∃ id ∈ p.findIn box name, (p.op id).outgoing? = some (d, channel)

instance (p : Program) (device : OpId) (name : String) (tile : Tile) (d : Direction)
    (channel : Int) :
    Decidable (p.Drives device name tile d channel) :=
  inferInstanceAs (Decidable (∃ box ∈ p.findIn device "aie.switchbox",
    p.switchboxTile? box = some tile ∧
      ∃ id ∈ p.findIn box name, (p.op id).outgoing? = some (d, channel)))

/-- The edits of the pipeline to the canonical form and the host's. -/
def EditRule.routed : EditRule :=
  .any [.fromLockIds, .circuits, .broadcasts, .packets, .multicasts]

/-- Routing flows spares the wires of packets. -/
theorem EditRule.routed_sparesWires : EditRule.routed.SparesWires := by
  have hprocesses : processes.SparesWires :=
    processes_names.sparesWires_of_unchanged (by decide) fun _ _ _ hop => hop
  have hmulticasts : multicasts.SparesWires :=
    multicasts_names.sparesWires_of_unchanged (by decide) fun _ _ _ hop => hop
  have hcircuits : circuits.SparesWires :=
    circuits_names.sparesWires_of_unchanged (by decide) fun _ _ _ hop => hop
  have hnumbering : numbering.SparesWires :=
    any_sparesWires (by simp [lockIds_sparesWires, hprocesses, fifos_sparesWires])
  have hafter : afterFifos.SparesWires := any_sparesWires (by
    simp [broadcasts_sparesWires, packets_sparesWires, hmulticasts, addresses_sparesWires,
      structured_sparesWires])
  have hcanonical : fromLockIds.SparesWires := any_sparesWires (by simp [hnumbering, hafter])
  exact any_sparesWires (by
    simp [hcanonical, hcircuits, broadcasts_sparesWires, packets_sparesWires, hmulticasts])

/-- The pipeline for the host edits the program by the rules of routing. -/
theorem host_edits (hp : p.Sound) (h : Pipeline.host.run p = (.ok (), q)) : p.Edits .routed q := by
  obtain ⟨r, hcircuits, h⟩ := Pipeline.runStages_cons_ok.1 h
  obtain ⟨s, hbroadcasts, h⟩ := Pipeline.runStages_cons_ok.1 h
  obtain ⟨t, hpackets, h⟩ := Pipeline.runStages_cons_ok.1 h
  obtain ⟨u, hmulticasts, h⟩ := Pipeline.runStages_cons_ok.1 h
  obtain ⟨-, rfl⟩ : _ ∧ u = q := Prod.mk.inj h
  have hr := (routeCircuitFlows_edits hp hcircuits).1
  have hs := (lowerBroadcasts_edits (hr.sound hp) hbroadcasts).1
  have ht := (routePacketFlows_edits (hs.sound (hr.sound hp)) hpackets).1
  have hu := (lowerMulticasts_edits (ht.sound (hs.sound (hr.sound hp))) hmulticasts).1
  exact ((hr.any (by simp)).trans (hs.any (by simp))).trans
    ((ht.any (by simp)).trans (hu.any (by simp)))

/-- In a device, a destination is no side of a tile if none of the source is. -/
theorem LoweringRun.base_endsInside (c : LoweringRun p q)
    (h : ∀ id < p.slots.size, (p.op id).EndsInside) :
    ∀ id < c.base.slots.size, (c.base.op id).EndsInside := by
  obtain ⟨haffine, hwraps, -⟩ := c.base_ok
  have hkept := haffine.sparesWires EditRule.affine_sparesWires c.sound h
  intro id hid
  by_cases hlt : id < c.affine.slots.size
  · rw [hwraps.op id hlt]
    exact (hkept id hlt).1
  · rw [hwraps.new id hid (Nat.le_of_not_lt hlt)]
    exact (Operation.plain_of_name (by decide)).1

/-- **Packets share channel 0.** When a source without switchboxes, whose packets end at no side of
a tile, is made canonical and then routed for the host, the rules of packets drive the wires between
neighbouring tiles on channel 0 only: a circuit on another channel has its wire to itself. -/
theorem canonicalizeSource_host_wires {source : String} {m : Program}
    (hparse : Source.parse source = .ok p) (hboxes : p.findAll "aie.switchbox" = [])
    (hends : ∀ id ∈ p.walk, (p.op id).EndsInside) (h : canonicalizeSource source = .ok m)
    (hhost : Pipeline.host.run m = (.ok (), q)) :
    ∀ device ∈ q.devices, ∀ tile d channel, q.Drives device "aie.packet_rule" tile d channel →
      channel = 0 := by
  obtain ⟨r, s, ⟨c⟩, hbuffers, hstructured⟩ := canonicalizeSource_run hparse h
  have hcanonical := c.fromLockIds_edits hbuffers hstructured
  have hedits : c.base.Edits .routed q := Program.Edits.trans (hcanonical.any (by simp))
    (host_edits (hcanonical.sound c.base_sound) hhost)
  have hnone : ∀ id ∈ c.base.walk, (c.base.op id).name ≠ "aie.switchbox" :=
    c.base_name_ne (by decide) (by decide) hboxes
  have hzero := hedits.sparesWires EditRule.routed_sparesWires c.base_sound
    (c.base_endsInside fun id hid => hends id (Source.mem_walk_of_parse hparse hid))
  rintro device hdevice tile d channel ⟨box, hbox, -, id, hid, hout⟩
  obtain ⟨hbox, hboxname⟩ := List.mem_filter.1 hbox
  obtain ⟨hid, hname⟩ := List.mem_filter.1 hid
  have hsound := hedits.sound c.base_sound
  have hwalk := hsound.mem_walk_of_walkIn (Program.mem_walk_of_mem_devices hdevice) hbox
  exact (hzero id (hsound.lt_size_of_walkIn hid)).2
    (hedits.rule_new EditRule.routed_sparesWires c.base_sound hnone hwalk
      (beq_iff_eq.1 hboxname) hid)
    hname d channel hout

/-- The program that is routed for the host, if there is one. -/
def routedSource? (source : String) : Option Program :=
  match canonicalizeSource source with
  | .error _ => none
  | .ok m =>
    match Pipeline.host.run m with
    | (.ok (), q) => some q
    | (.error _, _) => none

/-- A property that is checked on the routed program of a source holds of one. -/
theorem exists_routed_of_any {source : String} {P : Program → Prop} [DecidablePred P]
    (h : (routedSource? source).any (fun q => decide (P q)) = true) :
    ∃ m q, canonicalizeSource source = .ok m ∧ Pipeline.host.run m = (.ok (), q) ∧ P q := by
  rw [routedSource?] at h
  split at h
  · cases h
  · rename_i m hm
    split at h
    · rename_i hrun
      exact ⟨m, _, hm, hrun, of_decide_eq_true h⟩
    · cases h

/-- A packet flow and two flows between the same two tiles. -/
def wireSource : String :=
  "%a = aie.tile(0, 2)\n%b = aie.tile(0, 3)\naie.flow(%a, DMA, 0, %b, DMA, 0)\n" ++
  "aie.flow(%a, DMA, 1, %b, DMA, 1)\n" ++
  "aie.packet_flow(1) \x7b aie.packet_source(%a, Core, 0) aie.packet_dest(%b, Core, 0) \x7d"

/-- The packets go north on channel 0, and the second circuit on channel 1. -/
theorem canonicalizeSource_host_wires_north : ∃ p m q, Source.parse wireSource = .ok p ∧
    p.findAll "aie.switchbox" = [] ∧ (∀ id ∈ p.walk, (p.op id).EndsInside) ∧
    canonicalizeSource wireSource = .ok m ∧ Pipeline.host.run m = (.ok (), q) ∧
    (∃ device ∈ q.devices, q.Drives device "aie.packet_rule" ⟨0, 2⟩ .north 0 ∧
      q.Drives device "aie.connect" ⟨0, 2⟩ .north 1) ∧
    ∀ device ∈ q.devices, ∀ tile d channel, q.Drives device "aie.packet_rule" tile d channel →
      channel = 0 := by
  have hsource : ∃ p, Source.parse wireSource = .ok p ∧ p.findAll "aie.switchbox" = [] ∧
      ∀ id ∈ p.walk, (p.op id).EndsInside :=
    exists_ok_of_any (by decide +kernel)
  have hdrives : ∃ m q, canonicalizeSource wireSource = .ok m ∧
      Pipeline.host.run m = (.ok (), q) ∧ ∃ device ∈ q.devices,
        q.Drives device "aie.packet_rule" ⟨0, 2⟩ .north 0 ∧
          q.Drives device "aie.connect" ⟨0, 2⟩ .north 1 :=
    exists_routed_of_any (by decide +kernel)
  obtain ⟨p, hp, hboxes, hends⟩ := hsource
  obtain ⟨m, q, hm, hrun, hdrives⟩ := hdrives
  exact ⟨p, m, q, hp, hboxes, hends, hm, hrun, hdrives,
    canonicalizeSource_host_wires hp hboxes hends hm hrun⟩

/-- A circuit and the packets leave a tile on the same wire. -/
theorem canonicalizeSource_host_wires_shared : ∃ source p m q, Source.parse source = .ok p ∧
    p.findAll "aie.switchbox" = [] ∧ canonicalizeSource source = .ok m ∧
    Pipeline.host.run m = (.ok (), q) ∧ ∃ device ∈ q.devices,
      q.Drives device "aie.connect" ⟨0, 2⟩ .north 0 ∧
        q.Drives device "aie.packet_rule" ⟨0, 2⟩ .north 0 := by
  let source := "%a = aie.tile(0, 2)\n%b = aie.tile(0, 3)\naie.flow(%a, DMA, 0, %b, DMA, 0)\n" ++
    "aie.packet_flow(1) \x7b aie.packet_source(%a, DMA, 1) aie.packet_dest(%b, DMA, 1) \x7d"
  have hsource : ∃ p, Source.parse source = .ok p ∧ p.findAll "aie.switchbox" = [] :=
    exists_ok_of_any (by decide +kernel)
  have hdrives : ∃ m q, canonicalizeSource source = .ok m ∧ Pipeline.host.run m = (.ok (), q) ∧
      ∃ device ∈ q.devices, q.Drives device "aie.connect" ⟨0, 2⟩ .north 0 ∧
        q.Drives device "aie.packet_rule" ⟨0, 2⟩ .north 0 :=
    exists_routed_of_any (by decide +kernel)
  obtain ⟨p, hp, hboxes⟩ := hsource
  obtain ⟨m, q, hm, hrun, hdrives⟩ := hdrives
  exact ⟨source, p, m, q, hp, hboxes, hm, hrun, hdrives⟩

end TileFlow
