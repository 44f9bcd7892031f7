import TileFlow.Proofs.Program.Graft
import TileFlow.Proofs.Program.Order
import TileFlow.Proofs.Routing.Packet

/-!
# What the router of packets changes

The router of packets creates tiles, switchboxes and rules in them, and erases packet flows with
what is below them. Of all that, the table of rules shows nothing but the rules, as long as no
switchbox comes to sit on another tile on the way; it could if it named the value of a packet flow,
or of nothing, since a tile that is created may get that value.

## Main definitions

* `Program.ruleTable`: the table of a device.
* `Program.PacketReady`: the programs in which packets are routed.
* `Program.PacketStep`: an edit of the router.
* `Program.Fills`: what a part of the routing changes.

## Main results

* `Program.PacketReady.step_insertAt`, `Program.PacketReady.step_erase`: the edits.
* `switchboxFor_fills`: the first switchbox on a tile, be it a new one.
* `addOnce_fills`: a rule that is put into it.
-/

namespace TileFlow

open TileFlow.Action

/-- What tells rules apart: an operation without its result and its region. -/
def Operation.bare (op : Operation) : Operation :=
  { op with result := none, hasRegion := false }

/-- Two operations are bare alike when name, operands and attributes agree. -/
theorem Operation.bare_eq_iff {a b : Operation} :
    a.bare = b.bare ↔ a.name = b.name ∧ a.operands = b.operands ∧ a.attributes = b.attributes := by
  simp [Operation.bare]

/-- The bare operation is read off the header. -/
theorem Operation.SameHeader.bare {a b : Operation} (h : a.SameHeader b) : b.bare = a.bare := by
  rw [h]
  rfl

namespace Program

variable {p q r : Program} {device a box d flow id : OpId} {op rule : Operation} {t : Tile}
  {T T' : RuleTable} {gone gone' : List OpId}

/-! ### The table of a device -/

/-- The rules in a switchbox. -/
def rulesIn (p : Program) (box : OpId) : List Operation :=
  ((p.children (some box)).filter fun id => (p.op id).is "aie.packet_rule").map fun id =>
    (p.op id).bare

/-- The switchboxes of a device in their order, with their tiles and rules. -/
def ruleTable (p : Program) (device : OpId) : RuleTable :=
  (p.findIn device "aie.switchbox").map fun box => (p.switchboxTile? box, p.rulesIn box)

/-- Whether an operation is a packet flow of a device or belongs to one. -/
def InPacketFlow (p : Program) (device id : OpId) : Prop :=
  ∃ flow ∈ p.findIn device "aie.packet_flow", id = flow ∨ id ∈ p.walkIn flow

/-- A program with a device in which packet flows have nothing but sources and destinations below
them, and switchboxes name values that are defined outside of packet flows, if they name any. -/
structure PacketReady (p : Program) (device : OpId) : Prop where
  tree : p.Tree
  inBody : device ∈ p.walk
  values : p.definedValues.Nodup
  ends : ∀ flow ∈ p.findIn device "aie.packet_flow", ∀ id ∈ p.walkIn flow,
    (p.op id).name ∈ ["aie.packet_source", "aie.packet_dest"]
  placed : ∀ box ∈ p.findIn device "aie.switchbox", ∀ v, (p.op box).operandValue? 0 = some v →
    ∃ d ∈ p.walk, (p.op d).result = some v ∧ ¬ p.InPacketFlow device d

/-- Operations of packet flows have one of three names. -/
theorem PacketReady.name (hp : p.PacketReady device) (h : p.InPacketFlow device id) :
    (p.op id).name ∈ ["aie.packet_flow", "aie.packet_source", "aie.packet_dest"] := by
  obtain ⟨flow, hflow, rfl | hid⟩ := h
  · simp [beq_iff_eq.1 (List.mem_filter.1 hflow).2]
  · exact List.mem_cons_of_mem _ (hp.ends flow hflow id hid)

/-- Only ends stand inside of a packet flow. -/
theorem PacketReady.not_inPacketFlow (hp : p.PacketReady device) {name : String}
    (hname : (p.op id).is name = true)
    (hne : name ∉ ["aie.packet_flow", "aie.packet_source", "aie.packet_dest"]) :
    ¬ p.InPacketFlow device id := fun h => hne (Operation.mem_of_is (hp.name h) hname)

/-- What is met below the device is met in the program. -/
theorem PacketReady.mem_walk (hp : p.PacketReady device) (h : id ∈ p.walkIn device) : id ∈ p.walk :=
  hp.tree.sound.mem_walk_of_walkIn hp.inBody h

/-- What stands in a switchbox is met in the program. -/
theorem PacketReady.mem_walk_of_child (hp : p.PacketReady device)
    (hbox : box ∈ p.findIn device "aie.switchbox") (hid : id ∈ p.children (some box)) :
    id ∈ p.walk :=
  hp.tree.sound.mem_walk_of_walkIn (hp.mem_walk (List.mem_filter.1 hbox).1)
    (mem_walkIn_of_mem_children hid)

/-- A device is not in a packet flow of its own. -/
theorem PacketReady.device_not_inPacketFlow (hp : p.PacketReady device) :
    ¬ p.InPacketFlow device device := by
  have hself := hp.tree.notMem_walkIn_self device
  rintro ⟨flow, hflow, rfl | hid⟩
  · exact hself (List.mem_filter.1 hflow).1
  · exact hself (hp.tree.walkIn_trans (List.mem_filter.1 hflow).1 hid)

/-! ### Edits of the router -/

/-- An edit after which everything outside of packet flows is still there, and every packet flow
that is left is as it was. -/
structure PacketStep (p : Program) (device : OpId) (gone : List OpId) (q : Program) : Prop where
  tree : q.Tree
  inBody : device ∈ q.walk
  values : q.definedValues.Nodup
  stays : ∀ id ∈ p.walk, ¬ p.InPacketFlow device id → id ∈ q.walk
  op : ∀ id ∈ p.walk, (p.op id).SameHeader (q.op id)
  flows : q.findIn device "aie.packet_flow" =
    (p.findIn device "aie.packet_flow").filter (· ∉ gone)
  same : ∀ flow ∈ p.findIn device "aie.packet_flow", flow ∉ gone → p.SameAt flow q

namespace PacketStep

/-- The packet flows that are left are those that are not gone. -/
theorem mem_flows (h : p.PacketStep device gone q) : flow ∈ q.findIn device "aie.packet_flow" ↔
    flow ∈ p.findIn device "aie.packet_flow" ∧ flow ∉ gone := by
  rw [h.flows, List.mem_filter, decide_eq_true_iff]

/-- What is in a packet flow afterwards was in one before. -/
theorem inPacketFlow (h : p.PacketStep device gone q) (hd : q.InPacketFlow device d) :
    p.InPacketFlow device d := by
  obtain ⟨flow, hflow, hd⟩ := hd
  obtain ⟨hflow, hgone⟩ := h.mem_flows.1 hflow
  exact ⟨flow, hflow, hd.imp_right fun hd => by rwa [← (h.same flow hflow hgone).walkIn]⟩

/-- Values go on to name the tiles that they name. -/
theorem tileOf? (h : p.PacketStep device gone q) (hp : p.PacketReady device) {v : String}
    (ht : p.tileOf? v = some t) : q.tileOf? v = some t :=
  tileOf?_of_sameHeader h.values (fun id hid htile =>
    ⟨h.stays id hid (hp.not_inPacketFlow htile (by decide)), h.op id hid⟩) ht

/-- The definition of a value that a switchbox names. -/
theorem exists_definition (h : p.PacketStep device gone q) (hp : p.PacketReady device)
    (hbox : box ∈ p.findIn device "aie.switchbox") {v : String}
    (hv : (p.op box).operandValue? 0 = some v) :
    ∃ d ∈ p.walk, d ∈ q.walk ∧ (p.op d).result = some v ∧ (q.op d).result = some v ∧
      ¬ q.InPacketFlow device d := by
  obtain ⟨d, hd, hresult, hnot⟩ := hp.placed box hbox v hv
  exact ⟨d, hd, h.stays d hd hnot, hresult, by rw [(h.op d hd).result, hresult],
    fun hin => hnot (h.inPacketFlow hin)⟩

/-- Switchboxes stay on their tiles. -/
theorem switchboxTile? (h : p.PacketStep device gone q) (hp : p.PacketReady device)
    (hbox : box ∈ p.findIn device "aie.switchbox") :
    q.switchboxTile? box = p.switchboxTile? box := by
  have hsame := h.op box (hp.mem_walk (List.mem_filter.1 hbox).1)
  rw [Program.switchboxTile?, Program.switchboxTile?, hsame.operandValue?]
  rcases hv : (p.op box).operandValue? 0 with _ | v
  · rfl
  obtain ⟨d, hd, hdq, hresult, hresultq, -⟩ := h.exists_definition hp hbox hv
  rw [Option.bind_some, Option.bind_some, Program.tileOf?, Program.tileOf?,
    (definingOp?_eq_some_iff hp.values).2 ⟨hd, hresult⟩,
    (definingOp?_eq_some_iff h.values).2 ⟨hdq, hresultq⟩]
  dsimp only
  rw [(h.op d hd).is, Operation.tile?, Operation.tile?, Operation.operandInt?,
    Operation.operandInt?, Operation.operandInt?, Operation.operandInt?, (h.op d hd).operands]

/-- The program is still one in which packets are routed, if new switchboxes are in place. -/
theorem ready (h : p.PacketStep device gone q) (hp : p.PacketReady device)
    (hboxes : ∀ box ∈ q.findIn device "aie.switchbox", box ∉ p.findIn device "aie.switchbox" →
      ∀ v, (q.op box).operandValue? 0 = some v →
        ∃ d ∈ q.walk, (q.op d).result = some v ∧ ¬ q.InPacketFlow device d) :
    q.PacketReady device where
  tree := h.tree
  inBody := h.inBody
  values := h.values
  ends flow hflow id hid := by
    obtain ⟨hflow, hgone⟩ := h.mem_flows.1 hflow
    have hsame := h.same flow hflow hgone
    rw [hsame.walkIn] at hid
    rw [hsame.op id (.inr hid)]
    exact hp.ends flow hflow id hid
  placed box hbox v hv := by
    by_cases hold : box ∈ p.findIn device "aie.switchbox"
    · rw [(h.op box (hp.mem_walk (List.mem_filter.1 hold).1)).operandValue?] at hv
      obtain ⟨d, -, hd, -, hresult, hnot⟩ := h.exists_definition hp hold hv
      exact ⟨d, hd, hresult, hnot⟩
    · exact hboxes box hbox hold v hv

/-- Switchboxes that have the same children, as far as they are rules, have the same rules. -/
theorem rulesIn (h : p.PacketStep device gone q) (hp : p.PacketReady device)
    (hbox : box ∈ p.findIn device "aie.switchbox")
    (hchildren : (q.children (some box)).filter (fun id => (q.op id).is "aie.packet_rule") =
      (p.children (some box)).filter fun id => (p.op id).is "aie.packet_rule") :
    q.rulesIn box = p.rulesIn box := by
  rw [Program.rulesIn, Program.rulesIn, hchildren]
  exact List.map_congr_left fun id hid =>
    (h.op id (hp.mem_walk_of_child hbox (List.mem_filter.1 hid).1)).bare

end PacketStep

/-! ### Creation -/

/-- Operations that are not packet flows are created right below the device, or in switchboxes. -/
theorem PacketReady.step_insertAt (hp : p.PacketReady device)
    (ha : a = device ∨ a ∈ p.findIn device "aie.switchbox")
    (hname : op.is "aie.packet_flow" = false)
    (hresult : ∀ v, op.result = some v → v ∉ p.definedValues) (i : Nat) :
    p.PacketStep device [] (p.insertAt (some a) i op).2 := by
  have hin : a = device ∨ a ∈ p.walkIn device := ha.imp_right fun h => (List.mem_filter.1 h).1
  have hwalk : a ∈ p.walk := by
    rcases hin with rfl | hin
    · exact hp.inBody
    · exact hp.mem_walk hin
  have hout : ¬ p.InPacketFlow device a := by
    rcases ha with rfl | ha
    · exact hp.device_not_inPacketFlow
    · exact hp.not_inPacketFlow (List.mem_filter.1 ha).2 (by decide)
  have hadds := adds_insertAt hp.tree.sound.toWellFormed hwalk i op
  refine ⟨hp.tree.insertAt (some a) i op, (hadds.walk _).2 (.inr hp.inBody),
    hadds.values hp.values hresult, fun id hid _ => (hadds.walk id).2 (.inr hid), hadds.old, ?_,
    fun flow hflow _ => ?_⟩
  · rw [findIn_insertAt hp.tree.sound hp.inBody hin hname]
    exact (List.filter_eq_self.2 fun _ _ => by simp).symm
  · exact sameAt_insertAt hp.tree.sound (hp.mem_walk (List.mem_filter.1 hflow).1) hwalk
      (fun heq => hout ⟨flow, hflow, .inl heq.symm⟩)
        (fun hmem => hout ⟨flow, hflow, .inr hmem⟩) i op

/-- The rules of a switchbox in which nothing is created. -/
theorem PacketReady.rulesIn_insertAt (hp : p.PacketReady device)
    (h : p.PacketStep device [] (p.insertAt (some a) i op).2)
    (hbox : box ∈ p.findIn device "aie.switchbox") (hne : box ≠ a) :
    (p.insertAt (some a) i op).2.rulesIn box = p.rulesIn box := by
  have hlt : box < p.slots.size :=
    hp.tree.sound.created box (hp.mem_walk (List.mem_filter.1 hbox).1)
  have hchildren : (p.insertAt (some a) i op).2.children (some box) = p.children (some box) :=
    hp.tree.children_insertAt (fun heq => hne (Option.some.inj heq))
      fun heq => absurd hlt (by rw [Option.some.inj heq]; exact Nat.lt_irrefl _)
  refine h.rulesIn hp hbox ?_
  rw [hchildren]
  exact List.filter_congr fun id hid => (h.op id (hp.mem_walk_of_child hbox hid)).is _

/-! ### What a part of the routing changes -/

/-- The program still has everything outside of the packet flows that are gone, and it has a certain
table. -/
structure Fills (p : Program) (device : OpId) (T : RuleTable) (gone : List OpId) (q : Program) :
    Prop where
  ready : q.PacketReady device
  tiles : ∀ v t, p.tileOf? v = some t → q.tileOf? v = some t
  flows : q.findIn device "aie.packet_flow" =
    (p.findIn device "aie.packet_flow").filter (· ∉ gone)
  same : ∀ flow ∈ p.findIn device "aie.packet_flow", flow ∉ gone → p.SameAt flow q
  table : q.ruleTable device = T

/-- A program fills its own rules with nothing. -/
theorem Fills.refl (hp : p.PacketReady device) : p.Fills device (p.ruleTable device) [] p where
  ready := hp
  tiles _ _ h := h
  flows := (List.filter_eq_self.2 fun _ _ => by simp).symm
  same flow hflow _ := by
    obtain ⟨k, hk, -⟩ := exists_below (hp.mem_walk (List.mem_filter.1 hflow).1)
    exact ⟨⟨k, hk, hk⟩, fun _ _ => rfl⟩
  table := rfl

/-- Filling in two steps is filling with the rules of both. -/
theorem Fills.trans (h : p.Fills device T gone q) (h' : q.Fills device T' gone' r) :
    p.Fills device T' (gone ++ gone') r where
  ready := h'.ready
  tiles v t ht := h'.tiles v t (h.tiles v t ht)
  flows := by
    rw [h'.flows, h.flows, List.filter_filter]
    exact List.filter_congr fun id _ => by simp [Bool.and_comm]
  same flow hflow hgone := by
    rw [List.mem_append, not_or] at hgone
    refine (h.same flow hflow hgone.1).trans (h'.same flow ?_ hgone.2)
    rw [h.flows, List.mem_filter]
    exact ⟨hflow, by simpa using hgone.1⟩
  table := h'.table

/-- An edit of the router that creates no switchbox changes the table as it changes the rules of the
switchboxes. -/
theorem PacketStep.effect (h : p.PacketStep device gone q) (hp : p.PacketReady device)
    (hboxes : q.findIn device "aie.switchbox" = p.findIn device "aie.switchbox") :
    p.Fills device ((p.findIn device "aie.switchbox").map fun box =>
      (p.switchboxTile? box, q.rulesIn box)) gone q where
  ready := h.ready hp fun box hbox hnot => absurd (hboxes ▸ hbox) hnot
  tiles _ _ := h.tileOf? hp
  flows := h.flows
  same := h.same
  table := by
    rw [ruleTable, hboxes]
    exact List.map_congr_left fun box hbox => by rw [h.switchboxTile? hp hbox]

/-- Packet flows are erased with their sources and destinations. -/
theorem PacketReady.step_erase (hp : p.PacketReady device)
    (hflow : flow ∈ p.findIn device "aie.packet_flow") :
    p.PacketStep device [flow] (p.erase flow) := by
  obtain ⟨hin, hname⟩ := List.mem_filter.1 hflow
  have hlt := hp.tree.sound.created flow (hp.mem_walk hin)
  have hcut := cut_erase hp.tree.sound hlt
  have hapart : ∀ x ∈ p.findIn device "aie.packet_flow", ∀ y ∈ p.findIn device "aie.packet_flow",
      y ∉ p.walkIn x := fun x hx y hy hmem =>
    absurd (Operation.mem_of_is (hp.ends x hx y hmem) (List.mem_filter.1 hy).2) (by decide)
  have hstays : ∀ id ∈ p.walk, ¬ p.InPacketFlow device id → id ∈ (p.erase flow).walk :=
    fun id hid hnot => (hcut.walk id).2
      ⟨hid, fun heq => hnot ⟨flow, hflow, .inl heq⟩, fun hmem => hnot ⟨flow, hflow, .inr hmem⟩⟩
  refine ⟨hp.tree.erase hlt, hstays device hp.inBody hp.device_not_inPacketFlow, ?_, hstays,
    fun id _ => ?_, ?_, fun y hy hne => ?_⟩
  · simp only [definedValues, op_erase]
    exact hp.values.sublist ((hp.tree.sound.walk_erase_sublist flow).filterMap _)
  · rw [op_erase]
    exact .refl _
  · rw [findIn_erase hp.tree hp.inBody hin fun id hid =>
      Operation.not_is_of_mem (hp.ends flow hflow id hid) (by decide)]
    exact List.filter_congr fun id _ => by simp
  · exact sameAt_erase hp.tree (hp.mem_walk (List.mem_filter.1 hy).1) (by simpa using hne)
      (hapart flow hflow y hy) (hapart y hy flow hflow)

/-- A packet flow that is erased takes no rule with it. -/
theorem PacketReady.fills_erase (hp : p.PacketReady device)
    (hflow : flow ∈ p.findIn device "aie.packet_flow") :
    p.Fills device (p.ruleTable device) [flow] (p.erase flow) := by
  have hstep := hp.step_erase hflow
  obtain ⟨hin, hname⟩ := List.mem_filter.1 hflow
  have hlt := hp.tree.sound.created flow (hp.mem_walk hin)
  have hboxes : (p.erase flow).findIn device "aie.switchbox" = p.findIn device "aie.switchbox" := by
    rw [findIn_erase hp.tree hp.inBody hin fun id hid =>
      Operation.not_is_of_mem (hp.ends flow hflow id hid) (by decide)]
    refine List.filter_eq_self.2 fun box hbox => decide_eq_true ?_
    rintro rfl
    exact absurd (Operation.is_inj hname (List.mem_filter.1 hbox).2) (by decide)
  have htable : p.ruleTable device = (p.findIn device "aie.switchbox").map fun box =>
      (p.switchboxTile? box, (p.erase flow).rulesIn box) := by
    refine List.map_congr_left fun box hbox => ?_
    rw [hstep.rulesIn hp hbox]
    rw [hp.tree.children_erase hlt, List.filter_filter]
    refine List.filter_congr fun id _ => ?_
    rw [op_erase]
    by_cases hid : id = flow
    · simp [hid, Operation.not_is_of_is hname (by decide : "aie.packet_flow" ≠ "aie.packet_rule")]
    · simp [hid]
  rw [htable]
  exact hstep.effect hp hboxes

end Program

/-! ### Tiles and switchboxes -/

/-- No switchbox is found on a tile exactly if the table of rules has none there. -/
theorem Program.switchboxOn?_eq_none_iff {p : Program} {device : OpId} {t : Tile} :
    p.switchboxOn? device t = none ↔ ∀ e ∈ p.ruleTable device, e.1 ≠ some t := by
  simp [switchboxOn?, ruleTable, List.find?_eq_none]

variable {p q r : Program} {device box : OpId} {rule : Operation} {tile : Tile}

/-- What is created right below the device, be it no switchbox, leaves the table as it is. -/
theorem insertAt_fills {op : Operation} (hp : p.PacketReady device)
    (hbox : op.is "aie.switchbox" = false) (hflow : op.is "aie.packet_flow" = false)
    (hresult : ∀ v, op.result = some v → v ∉ p.definedValues) (i : Nat) :
    p.Fills device (p.ruleTable device) [] (p.insertAt (some device) i op).2 := by
  have hstep := hp.step_insertAt (.inl rfl) hflow hresult i
  have htable : p.ruleTable device = (p.findIn device "aie.switchbox").map fun box =>
      (p.switchboxTile? box, (p.insertAt (some device) i op).2.rulesIn box) :=
    List.map_congr_left fun box hbox => by
      rw [hp.rulesIn_insertAt hstep hbox]
      rintro rfl
      exact hp.tree.notMem_walkIn_self _ (List.mem_filter.1 hbox).1
  rw [htable]
  exact hstep.effect hp (Program.findIn_insertAt hp.tree.sound hp.inBody (.inl rfl) hbox)

/-- Finding or creating a tile leaves the table of rules. -/
theorem tileValue_fills {value : String} (hp : p.PacketReady device)
    (h : runOn (tileValue device tile) p = (.ok value, q)) :
    p.Fills device (p.ruleTable device) [] q := by
  rw [tileValue, get_bind_ok] at h
  split at h
  · obtain ⟨-, rfl⟩ := pure_ok.1 h
    exact .refl hp
  · dsimp only at h
    obtain ⟨_, r, hprepend, h⟩ := bind_ok.1 h
    rw [runOn_prepend, Prod.mk.injEq] at hprepend
    obtain ⟨-, rfl⟩ := hprepend
    obtain ⟨-, rfl⟩ := pure_ok.1 h
    refine insertAt_fills hp rfl rfl (fun v hv => ?_) 0
    cases hv
    exact p.freshValue_notMem _

/-- A switchbox that is appended to the device is the first one on a tile where there was none. -/
theorem append_switchbox_fills {op : Operation} {value : String} {d : OpId}
    (hp : p.PacketReady device) (hd : d ∈ p.walk) (hresult : (p.op d).result = some value)
    (hname : (p.op d).is "aie.tile" = true) (htile : (p.op d).tile? = some tile)
    (hnone : ∀ e ∈ p.ruleTable device, e.1 ≠ some tile) (hop : op.is "aie.switchbox" = true)
    (hvalue : op.operandValue? 0 = some value) (hno : op.result = none)
    (hq : q = (p.append (some device) op).2) :
    p.Fills device (p.ruleTable device ++ [(some tile, [])]) [] q ∧
      q.switchboxOn? device tile = some p.slots.size := by
  have hadds : p.Adds device op q :=
    hq ▸ Program.adds_insertAt hp.tree.sound.toWellFormed hp.inBody _ op
  have hstep : p.PacketStep device [] q := hq ▸ hp.step_insertAt (.inl rfl)
    (Operation.not_is_of_is hop (by decide)) (fun v hv => by rw [hno] at hv; cases hv) _
  have hboxes : q.findIn device "aie.switchbox" =
      p.findIn device "aie.switchbox" ++ [p.slots.size] :=
    hq ▸ Program.findIn_append_self hp.tree.sound hp.inBody hop
  have hout : ¬ p.InPacketFlow device d := hp.not_inPacketFlow hname (by decide)
  have hdq := hstep.stays d hd hout
  have hsame := hstep.op d hd
  -- The switchbox names the tile by its value, and no tile on the way there gets another place.
  have hvalueTile : p.tileOf? value = some tile := by
    rw [Program.tileOf?, (Program.definingOp?_eq_some_iff hp.values).2 ⟨hd, hresult⟩]
    dsimp only
    rw [if_pos hname, htile]
  have hplace : q.switchboxTile? p.slots.size = some tile := by
    rw [Program.switchboxTile?, hadds.new, hvalue, Option.bind_some]
    exact hstep.tileOf? hp hvalueTile
  have hrow : ∀ box ∈ p.findIn device "aie.switchbox",
      (q.switchboxTile? box, q.rulesIn box) = (p.switchboxTile? box, p.rulesIn box) :=
    fun box hbox => by
      subst hq
      rw [hstep.switchboxTile? hp hbox]
      refine congrArg _ (hp.rulesIn_insertAt hstep hbox ?_)
      rintro rfl
      exact hp.tree.notMem_walkIn_self _ (List.mem_filter.1 hbox).1
  have hempty : q.rulesIn p.slots.size = [] := by
    rw [Program.rulesIn, hadds.leaf]
    rfl
  have htable : q.ruleTable device = p.ruleTable device ++ [(some tile, [])] := by
    rw [Program.ruleTable, hboxes, List.map_append, List.map_congr_left hrow, List.map_singleton,
      hplace, hempty]
    rfl
  refine ⟨⟨hstep.ready hp fun box hbox hnot v hv => ?_, fun _ _ => hstep.tileOf? hp, hstep.flows,
    hstep.same, htable⟩, ?_⟩
  · rw [hboxes, List.mem_append, List.mem_singleton] at hbox
    obtain rfl := hbox.resolve_left hnot
    rw [hadds.new, hvalue, Option.some.injEq] at hv
    subst hv
    exact ⟨d, hdq, by rw [hsame.result, hresult], fun hin => hout (hstep.inPacketFlow hin)⟩
  · have hold : (p.findIn device "aie.switchbox").find?
        (fun box => q.switchboxTile? box == some tile) = none :=
      List.find?_eq_none.2 fun box hbox heq => hnone _ (List.mem_map_of_mem hbox) (by
        rw [beq_iff_eq, hstep.switchboxTile? hp hbox] at heq
        exact heq)
    rw [Program.switchboxOn?, hboxes, List.find?_append, hold, Option.none_or,
      List.find?_cons_of_pos (by rw [hplace]; exact beq_self_eq_true _)]

/-- The switchbox of a tile is the first one there, be it a new one without rules. -/
theorem switchboxFor_fills (hp : p.PacketReady device)
    (h : runOn (switchboxFor device tile) p = (.ok box, q)) :
    ∃ T, p.Fills device T [] q ∧ q.switchboxOn? device tile = some box ∧
      ∀ rule, T.add tile rule = (p.ruleTable device).add tile rule := by
  rw [switchboxFor, get_bind_ok] at h
  split at h
  · rename_i found hfound
    obtain ⟨rfl, rfl⟩ := pure_ok.1 h
    exact ⟨_, .refl hp, hfound, fun _ => rfl⟩
  · rename_i hnone
    obtain ⟨value, r, hvalue, h⟩ := bind_ok.1 h
    have hr := tileValue_fills hp hvalue
    obtain ⟨d, hd, hresult, hname, htile⟩ := tileValue_isTile hp.tree.sound hp.inBody hvalue
    rw [runOn_append, Prod.mk.injEq, Except.ok.injEq] at h
    obtain ⟨rfl, hq⟩ := h
    have htable := Program.switchboxOn?_eq_none_iff.1 hnone
    obtain ⟨hext, hbox⟩ := append_switchbox_fills hr.ready hd hresult hname htile
      (by rwa [hr.table]) rfl rfl rfl hq.symm
    rw [hr.table] at hext
    refine ⟨_, hr.trans hext, hbox, fun rule => ?_⟩
    calc RuleTable.add tile rule (p.ruleTable device ++ [(some tile, [])])
        = p.ruleTable device ++ RuleTable.add tile rule [] := by
          rw [RuleTable.add_append htable]
          simp [RuleTable.add]
      _ = (p.ruleTable device).add tile rule := by
          rw [← RuleTable.add_append htable, List.append_nil]

/-! ### Rules -/

/-- A rule is in a switchbox exactly if an operation with its name, operands and attributes is. -/
theorem Program.mem_rulesIn {p : Program} (hrule : rule.is "aie.packet_rule" = true)
    (hbare : rule.bare = rule) : rule ∈ p.rulesIn box ↔ ((p.children (some box)).any fun id =>
      (p.op id).name == rule.name && (p.op id).operands == rule.operands &&
        (p.op id).attributes == rule.attributes) = true := by
  rw [rulesIn, List.mem_map, List.any_eq_true]
  constructor
  · rintro ⟨id, hid, heq⟩
    rw [← hbare, Operation.bare_eq_iff] at heq
    exact ⟨id, (List.mem_filter.1 hid).1, by simp [heq]⟩
  · rintro ⟨id, hid, heq⟩
    simp only [Bool.and_eq_true, beq_iff_eq, and_assoc] at heq
    refine ⟨id, List.mem_filter.2 ⟨hid, ?_⟩, ?_⟩
    · rw [Operation.is, heq.1]
      exact hrule
    · rw [← hbare]
      exact Operation.bare_eq_iff.2 heq

/-- A rule that is appended to a switchbox is the last one there. -/
theorem rulesIn_append (hp : p.PacketReady device) (hbox : box ∈ p.findIn device "aie.switchbox")
    (hrule : rule.is "aie.packet_rule" = true) (hbare : rule.bare = rule) :
    (p.append (some box) rule).2.rulesIn box = p.rulesIn box ++ [rule] := by
  have hwalk := hp.mem_walk (List.mem_filter.1 hbox).1
  have hadds := Program.adds_insertAt hp.tree.sound.toWellFormed hwalk
    (p.children (some box)).length rule
  have hold : ∀ id ∈ p.children (some box),
      (p.op id).SameHeader ((p.append (some box) rule).2.op id) :=
    fun id hid => hadds.old id (hp.mem_walk_of_child hbox hid)
  have hnew : (p.append (some box) rule).2.op p.slots.size = rule := hadds.new
  rw [Program.rulesIn, Program.children_append hwalk, List.filter_append,
    List.filter_cons_of_pos (by rw [hnew, hrule]), List.filter_nil, List.map_append,
    List.map_singleton, hnew, hbare, List.filter_congr fun id hid => (hold id hid).is _]
  exact congrArg (· ++ [rule]) (List.map_congr_left fun id hid =>
    (hold id (List.mem_filter.1 hid).1).bare)

/-- A rule is put into the first switchbox on its tile unless that one has it. -/
theorem addOnce_fills (hp : p.PacketReady device)
    (hbox : p.switchboxOn? device tile = some box) (hrule : rule.is "aie.packet_rule" = true)
    (hbare : rule.bare = rule) (h : runOn (addOnce box rule) p = (.ok (), q)) :
    p.Fills device ((p.ruleTable device).add tile rule) [] q := by
  have hin := List.mem_of_find?_eq_some hbox
  have hinside := (List.mem_filter.1 hin).1
  have hadd : (p.ruleTable device).add tile rule =
      (p.findIn device "aie.switchbox").map fun b => (p.switchboxTile? b,
        if b = box ∧ rule ∉ p.rulesIn b then p.rulesIn b ++ [rule] else p.rulesIn b) :=
    RuleTable.add_map (hp.tree.sound.nodup_findIn hp.inBody "aie.switchbox") hbox
  rw [addOnce, get_bind_ok] at h
  dsimp only at h
  split at h
  · rename_i hpresent
    obtain ⟨-, rfl⟩ := pure_ok.1 h
    have hmem := (Program.mem_rulesIn hrule hbare).2 hpresent
    have hsame : (p.ruleTable device).add tile rule = p.ruleTable device := by
      rw [hadd]
      refine List.map_congr_left fun b _ => congrArg _ (if_neg ?_)
      rintro ⟨rfl, hnot⟩
      exact hnot hmem
    rw [hsame]
    exact .refl hp
  · rename_i habsent
    obtain ⟨_, r, happend, h⟩ := bind_ok.1 h
    obtain ⟨-, rfl⟩ := pure_ok.1 h
    rw [runOn_append, Prod.mk.injEq] at happend
    obtain ⟨-, rfl⟩ := happend
    have hnot : rule ∉ p.rulesIn box := fun hmem =>
      habsent ((Program.mem_rulesIn hrule hbare).1 hmem)
    have hstep := hp.step_insertAt (.inr hin) (Operation.not_is_of_is hrule (by decide))
      (fun v hv => by rw [← hbare] at hv; cases hv) (p.children (some box)).length
    have hnew : (p.findIn device "aie.switchbox").map (fun b =>
        (p.switchboxTile? b, (p.append (some box) rule).2.rulesIn b)) =
          (p.ruleTable device).add tile rule := by
      rw [hadd]
      refine List.map_congr_left fun b hb => congrArg _ ?_
      by_cases heq : b = box
      · subst heq
        rw [rulesIn_append hp hin hrule hbare, if_pos ⟨rfl, hnot⟩]
      · rw [if_neg fun hbox => heq hbox.1]
        exact hp.rulesIn_insertAt hstep hb heq
    rw [← hnew]
    exact hstep.effect hp (Program.findIn_insertAt hp.tree.sound hp.inBody (.inr hinside)
      (Operation.not_is_of_is hrule (by decide)))

end TileFlow
