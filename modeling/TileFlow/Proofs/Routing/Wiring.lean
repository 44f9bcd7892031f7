import TileFlow.Proofs.Device.Placement
import TileFlow.Proofs.Program.Leaf
import TileFlow.Proofs.Routing.Trace

/-!
# The connections of a device

The connections of a device are those in its switchboxes, each on the tile of its switchbox. While
flows are routed, operations are created below the device and flows are erased; values go on to name
the tiles that they name, and the connections change only when one is created.

## Main definitions

* `Program.connections`: the connections of a device.
* `Program.Routable`: the programs in which flows are routed.
* `Program.Routes`: what a part of the routing changes.

## Main results

* `Program.Adds.routes`, `Program.Drops.routes`: the effects of single edits.
-/

namespace TileFlow

/-- The channels that a connection joins. -/
def Operation.channels? (op : Operation) : Option (Channel × Channel) :=
  match op.operandText? 0, op.operandInt? 1, op.operandText? 2, op.operandInt? 3 with
  | some bundle, some index, some bundle', some index' => some (⟨bundle, index⟩, ⟨bundle', index'⟩)
  | _, _, _, _ => none

namespace Program

/-- The connections in the switchboxes of a device. -/
def connections (p : Program) (device : OpId) (c : Connection) : Prop :=
  ∃ box ∈ p.findIn device "aie.switchbox", p.switchboxTile? box = some c.tile ∧
    ∃ id ∈ p.children (some box), (p.op id).is "aie.connect" = true ∧
      (p.op id).channels? = some (c.input, c.output)

/-- A program with a device in which every switchbox with connections has a tile. -/
structure Routable (p : Program) (device : OpId) : Prop where
  wellFormed : p.WellFormed
  inBody : device ∈ p.walk
  values : p.definedValues.Nodup
  placed : ∀ box ∈ p.findIn device "aie.switchbox", ∀ id ∈ p.children (some box),
    (p.op id).is "aie.connect" = true → ∃ t, p.switchboxTile? box = some t

/-- What a part of the routing changes: some connections are new, and some flows are gone. -/
structure Routes (p : Program) (device : OpId) (cs : List Connection) (gone : List OpId)
    (q : Program) : Prop where
  routable : q.Routable device
  connections : q.connections device = withConnections (p.connections device) cs
  kept : ∀ id ∈ p.walkIn device, id ∉ gone → id ∈ q.walkIn device
  op : ∀ id ∈ p.walkIn device, id ∉ gone → (p.op id).SameHeader (q.op id)
  tiles : ∀ v t, p.tileOf? v = some t → q.tileOf? v = some t
  leaves : ∀ id ∈ p.walkIn device, id ∉ gone → (p.op id).is "aie.flow" = true →
    p.children (some id) = [] → q.children (some id) = []

variable {p q r : Program} {device parent leaf : OpId} {op : Operation}
  {cs cs' : List Connection} {gone gone' : List OpId}

/-- A routable program has no circuit to route. -/
theorem Routes.refl (hp : p.Routable device) : p.Routes device [] [] p :=
  ⟨hp, (withConnections_nil _).symm, fun _ h _ => h, fun _ _ _ => .refl _, fun _ _ h => h,
    fun _ _ _ _ h => h⟩

/-- Routing in two steps is routing the circuits of both. -/
theorem Routes.trans (h : p.Routes device cs gone q) (h' : q.Routes device cs' gone' r) :
    p.Routes device (cs ++ cs') (gone ++ gone') r where
  routable := h'.routable
  connections := by rw [h'.connections, h.connections, withConnections_append]
  kept id hid hgone := by
    rw [List.mem_append, not_or] at hgone
    exact h'.kept id (h.kept id hid hgone.1) hgone.2
  op id hid hgone := by
    rw [List.mem_append, not_or] at hgone
    exact (h.op id hid hgone.1).trans (h'.op id (h.kept id hid hgone.1) hgone.2)
  tiles v t ht := h'.tiles v t (h.tiles v t ht)
  leaves id hid hgone hflow hleaf := by
    rw [List.mem_append, not_or] at hgone
    refine h'.leaves id (h.kept id hid hgone.1) hgone.2 ?_ (h.leaves id hid hgone.1 hflow hleaf)
    rw [(h.op id hid hgone.1).is, hflow]

/-- A value names the same tile when no tile operation is lost and no value is defined twice. -/
theorem tileOf?_of_sameHeader (hq : q.definedValues.Nodup)
    (h : ∀ id ∈ p.walk, (p.op id).is "aie.tile" = true →
      id ∈ q.walk ∧ (p.op id).SameHeader (q.op id)) {v : String} {t : Tile}
    (ht : p.tileOf? v = some t) : q.tileOf? v = some t := by
  rw [tileOf?] at ht
  split at ht
  · rename_i id hdef
    split at ht
    · rename_i htile
      obtain ⟨hid, hresult⟩ := mem_walk_of_definingOp? hdef
      obtain ⟨hidq, hsame⟩ := h id hid htile
      have hdefq : q.definingOp? v = some id :=
        (definingOp?_eq_some_iff hq).2 ⟨hidq, hsame.result ▸ hresult⟩
      rw [tileOf?, hdefq]
      dsimp only
      rw [hsame.is, if_pos htile, ← ht, Operation.tile?, Operation.operandInt?,
        Operation.operandInt?, hsame.operands]
      rfl
    · cases ht
  · cases ht

/-- The tile of a switchbox is read off its header. -/
theorem switchboxTile?_of_sameHeader {box : OpId} {t : Tile}
    (hop : (p.op box).SameHeader (q.op box))
    (htiles : ∀ v t, p.tileOf? v = some t → q.tileOf? v = some t)
    (h : p.switchboxTile? box = some t) : q.switchboxTile? box = some t := by
  rw [switchboxTile?, Option.bind_eq_some_iff] at h ⊢
  obtain ⟨v, hv, hvt⟩ := h
  refine ⟨v, ?_, htiles v t hvt⟩
  rw [Operation.operandValue?, hop.operands]
  exact hv

/-- The channels of a connection are read off its header. -/
theorem channels?_of_sameHeader {a b : Operation} (h : a.SameHeader b) :
    b.channels? = a.channels? := by
  simp only [Operation.channels?, Operation.operandText?, Operation.operandInt?, h.operands]

/-- A device is not met below itself. -/
theorem Routable.notMem_walkIn (hp : p.Routable device) : device ∉ p.walkIn device :=
  hp.wellFormed.notMem_walkIn_self hp.inBody

/-- What is met below the device is met in the program. -/
theorem Routable.mem_walk (hp : p.Routable device) {id : OpId} (hid : id ∈ p.walkIn device) :
    id ∈ p.walk :=
  hp.wellFormed.mem_walk_of_walkIn hp.inBody hid

/-- What stands in a switchbox is met in the program. -/
theorem Routable.mem_walk_of_child (hp : p.Routable device) {box id : OpId}
    (hbox : box ∈ p.walkIn device) (hid : id ∈ p.children (some box)) : id ∈ p.walk :=
  hp.wellFormed.mem_walk_of_walkIn (hp.mem_walk hbox) (mem_walkIn_of_mem_children hid)

/-! ### New operations -/

/-- A new operation whose result is new leaves every value with one definition. -/
theorem Adds.values (h : p.Adds parent op q) (hvalues : p.definedValues.Nodup)
    (hresult : ∀ v, op.result = some v → v ∉ p.definedValues) : q.definedValues.Nodup := by
  have hold : ∀ id ∈ p.walk, ∀ v, (q.op id).result = some v → (p.op id).result = some v :=
    fun id hid v hv => (h.old id hid).result ▸ hv
  have hclash : ∀ id ∈ p.walk, ∀ v, (q.op id).result = some v → op.result ≠ some v :=
    fun id hid v hv hop => hresult v hop (mem_definedValues.2 ⟨id, hid, hold id hid v hv⟩)
  refine nodup_definedValues h.wellFormed fun i hi j hj v hri hrj => ?_
  rcases (h.walk i).1 hi with rfl | hi <;> rcases (h.walk j).1 hj with rfl | hj
  · rfl
  · exact absurd (h.new ▸ hri) (hclash j hj v hrj)
  · exact absurd (h.new ▸ hrj) (hclash i hi v hri)
  · exact eq_of_result hvalues hi hj (hold i hi v hri) (hold j hj v hrj)

/-- Adding an operation keeps the tiles that values denote. -/
theorem Adds.tiles (h : p.Adds parent op q) (hq : q.definedValues.Nodup) {v : String} {t : Tile}
    (ht : p.tileOf? v = some t) : q.tileOf? v = some t :=
  tileOf?_of_sameHeader hq (fun id hid _ => ⟨(h.walk id).2 (.inr hid), h.old id hid⟩) ht

/-- The operations below a device to which one is added there. -/
theorem Adds.mem_walkIn (h : p.Adds parent op q) (hp : p.Routable device)
    (hparent : parent = device ∨ parent ∈ p.walkIn device) {id : OpId} :
    id ∈ q.walkIn device ↔ id ∈ p.walkIn device ∨ id = p.slots.size := by
  have : device = parent ∨ parent ∈ p.walkIn device := hparent.imp_left Eq.symm
  rw [h.walkIn device hp.inBody id]
  simp [this]

/-- Adding an operation loses none of those below the device. -/
theorem Adds.mem_findIn (h : p.Adds parent op q) (hp : p.Routable device)
    (hparent : parent = device ∨ parent ∈ p.walkIn device) {id : OpId} {name : String}
    (hid : id ∈ p.findIn device name) : id ∈ q.findIn device name := by
  obtain ⟨hin, hname⟩ := List.mem_filter.1 hid
  refine List.mem_filter.2 ⟨(h.mem_walkIn hp hparent).2 (.inl hin), ?_⟩
  rw [(h.old id (hp.mem_walk hin)).is, hname]

/-- Adding an operation keeps the tiles of switchboxes. -/
theorem Adds.switchboxTile? (h : p.Adds parent op q) (hp : p.Routable device)
    (hq : q.definedValues.Nodup) {box : OpId} (hbox : box ∈ p.findIn device "aie.switchbox")
    {t : Tile} (ht : p.switchboxTile? box = some t) : q.switchboxTile? box = some t :=
  switchboxTile?_of_sameHeader (h.old box (hp.mem_walk (List.mem_filter.1 hbox).1))
    (fun _ _ => h.tiles hq) ht

/-- A connection of the new program is one of the old, or the new operation. -/
theorem Adds.connection_cases (h : p.Adds parent op q) (hp : p.Routable device)
    (hparent : parent = device ∨ parent ∈ p.walkIn device) {box id : OpId}
    (hbox : box ∈ q.findIn device "aie.switchbox") (hid : id ∈ q.children (some box))
    (hname : (q.op id).is "aie.connect" = true) : box ∈ p.findIn device "aie.switchbox" ∧
      ((id ∈ p.children (some box) ∧ (p.op id).SameHeader (q.op id)) ∨
        (box = parent ∧ op.is "aie.connect" = true ∧ q.op id = op)) := by
  obtain ⟨hin, hboxname⟩ := List.mem_filter.1 hbox
  rcases (h.mem_walkIn hp hparent).1 hin with hin | rfl
  · rw [(h.old box (hp.mem_walk hin)).is] at hboxname
    refine ⟨List.mem_filter.2 ⟨hin, hboxname⟩, ?_⟩
    rcases (h.children box (hp.mem_walk hin) id).1 hid with hid | ⟨rfl, rfl⟩
    · exact .inl ⟨hid, h.old id (hp.mem_walk_of_child hin hid)⟩
    · exact .inr ⟨rfl, h.new ▸ hname, h.new⟩
  · -- Nothing is below the new operation.
    rw [h.leaf] at hid
    cases hid

/-- Switchboxes with connections still have tiles. -/
theorem Adds.routable (h : p.Adds parent op q) (hp : p.Routable device)
    (hparent : parent = device ∨ parent ∈ p.walkIn device) (hq : q.definedValues.Nodup)
    (hconnect : op.is "aie.connect" = true → ∃ t, p.switchboxTile? parent = some t) :
    q.Routable device := by
  refine ⟨h.wellFormed, (h.walk device).2 (.inr hp.inBody), hq, fun box hbox id hid hname => ?_⟩
  obtain ⟨hboxp, ⟨hid, hsame⟩ | ⟨rfl, hop, -⟩⟩ := h.connection_cases hp hparent hbox hid hname
  · obtain ⟨t, ht⟩ := hp.placed box hboxp id hid (hsame.is _ ▸ hname)
    exact ⟨t, h.switchboxTile? hp hq hboxp ht⟩
  · obtain ⟨t, ht⟩ := hconnect hop
    exact ⟨t, h.switchboxTile? hp hq hboxp ht⟩

/-- The connections of a device are the old ones and the new operation, if it is one. -/
theorem Adds.connections (h : p.Adds parent op q) (hp : p.Routable device)
    (hparent : parent = device ∨ parent ∈ p.walkIn device) (hq : q.definedValues.Nodup)
    (hconnect : op.is "aie.connect" = true →
      parent ∈ p.findIn device "aie.switchbox" ∧ ∃ t, p.switchboxTile? parent = some t)
    (hcs : ∀ c, c ∈ cs ↔ op.is "aie.connect" = true ∧ p.switchboxTile? parent = some c.tile ∧
      op.channels? = some (c.input, c.output)) :
    q.connections device = withConnections (p.connections device) cs := by
  funext c
  refine propext ⟨?_, ?_⟩
  · rintro ⟨box, hboxq, htile, id, hid, hname, hchannels⟩
    obtain ⟨hboxp, ⟨hid, hsame⟩ | ⟨rfl, hop, hnew⟩⟩ := h.connection_cases hp hparent hboxq hid hname
    · obtain ⟨t, ht⟩ := hp.placed box hboxp id hid (hsame.is _ ▸ hname)
      obtain rfl : t = c.tile := Option.some.inj
        ((h.switchboxTile? hp hq hboxp ht).symm.trans htile)
      exact .inl ⟨box, hboxp, ht, id, hid, hsame.is _ ▸ hname,
        channels?_of_sameHeader hsame ▸ hchannels⟩
    · obtain ⟨-, t, ht⟩ := hconnect hop
      obtain rfl : t = c.tile := Option.some.inj
        ((h.switchboxTile? hp hq hboxp ht).symm.trans htile)
      exact .inr ((hcs c).2 ⟨hop, ht, hnew ▸ hchannels⟩)
  · rintro (⟨box, hbox, htile, id, hid, hname, hchannels⟩ | hc)
    · have hin := (List.mem_filter.1 hbox).1
      have hsame := h.old id (hp.mem_walk_of_child hin hid)
      exact ⟨box, h.mem_findIn hp hparent hbox, h.switchboxTile? hp hq hbox htile, id,
        (h.children box (hp.mem_walk hin) id).2 (.inl hid), (hsame.is _).trans hname,
        (channels?_of_sameHeader hsame).trans hchannels⟩
    · obtain ⟨hop, htile, hchannels⟩ := (hcs c).1 hc
      obtain ⟨hbox, -⟩ := hconnect hop
      have hin := (List.mem_filter.1 hbox).1
      exact ⟨parent, h.mem_findIn hp hparent hbox, h.switchboxTile? hp hq hbox htile, p.slots.size,
        (h.children parent (hp.mem_walk hin) _).2 (.inr ⟨rfl, rfl⟩), by rw [h.new, hop],
        by rw [h.new, hchannels]⟩

/-- A new operation below a device is a connection of it or changes none of them. -/
theorem Adds.routes (h : p.Adds parent op q) (hp : p.Routable device)
    (hparent : parent = device ∨
      (parent ∈ p.walkIn device ∧ (p.op parent).is "aie.flow" = false))
    (hresult : ∀ v, op.result = some v → v ∉ p.definedValues)
    (hconnect : op.is "aie.connect" = true →
      parent ∈ p.findIn device "aie.switchbox" ∧ ∃ t, p.switchboxTile? parent = some t)
    (hcs : ∀ c, c ∈ cs ↔ op.is "aie.connect" = true ∧ p.switchboxTile? parent = some c.tile ∧
      op.channels? = some (c.input, c.output)) : p.Routes device cs [] q := by
  have hvalues := h.values hp.values hresult
  have hin : parent = device ∨ parent ∈ p.walkIn device := hparent.imp_right And.left
  refine ⟨h.routable hp hin hvalues fun hop => (hconnect hop).2,
    h.connections hp hin hvalues hconnect hcs, fun id hid _ => (h.mem_walkIn hp hin).2 (.inl hid),
    fun id hid _ => h.old id (hp.mem_walk hid), fun _ _ => h.tiles hvalues,
    fun id hid _ hflow hleaf => ?_⟩
  -- A flow is not where the new operation goes.
  rw [List.eq_nil_iff_forall_not_mem]
  intro child hchild
  rcases (h.children id (hp.mem_walk hid) child).1 hchild with hchild | ⟨rfl, -⟩
  · rw [hleaf] at hchild
    cases hchild
  · rcases hparent with rfl | ⟨-, hnot⟩
    · exact hp.notMem_walkIn hid
    · rw [hflow] at hnot
      cases hnot

/-! ### Flows that go -/

/-- An operation with another name than a flow is not the flow. -/
theorem ne_of_is_flow (hflow : (p.op leaf).is "aie.flow" = true) {id : OpId} {name : String}
    (hname : (p.op id).is name = true) (hne : name ≠ "aie.flow") : id ≠ leaf := by
  rintro rfl
  rw [Operation.is, beq_iff_eq] at hname hflow
  exact hne (hname.symm.trans hflow)

/-- Dropping a flow leaves no value defined twice. -/
theorem Drops.values (h : p.Drops leaf q) (hvalues : p.definedValues.Nodup) :
    q.definedValues.Nodup :=
  nodup_definedValues h.wellFormed fun i hi j hj _ hri hrj =>
    eq_of_result hvalues ((h.walk i).1 hi).1 ((h.walk j).1 hj).1 (h.op i ▸ hri) (h.op j ▸ hrj)

/-- Dropping a flow keeps the tiles that values denote. -/
theorem Drops.tileOf? (h : p.Drops leaf q) (hvalues : p.definedValues.Nodup)
    (hflow : (p.op leaf).is "aie.flow" = true) {v : String} {t : Tile} :
    q.tileOf? v = some t ↔ p.tileOf? v = some t :=
  ⟨tileOf?_of_sameHeader hvalues fun id hid _ => ⟨((h.walk id).1 hid).1, h.op id ▸ .refl _⟩,
    tileOf?_of_sameHeader (h.values hvalues) fun id hid htile =>
      ⟨(h.walk id).2 ⟨hid, ne_of_is_flow hflow htile (by decide)⟩, h.op id ▸ .refl _⟩⟩

/-- Dropping a flow keeps the tiles of switchboxes. -/
theorem Drops.switchboxTile? (h : p.Drops leaf q) (hvalues : p.definedValues.Nodup)
    (hflow : (p.op leaf).is "aie.flow" = true) {box : OpId} {t : Tile} :
    q.switchboxTile? box = some t ↔ p.switchboxTile? box = some t :=
  ⟨switchboxTile?_of_sameHeader (h.op box ▸ .refl _) fun _ _ => (h.tileOf? hvalues hflow).1,
    switchboxTile?_of_sameHeader (h.op box ▸ .refl _) fun _ _ => (h.tileOf? hvalues hflow).2⟩

/-- A connection of a switchbox is one of it before. -/
theorem Drops.connection_iff (h : p.Drops leaf q) (hp : p.Routable device)
    (hleaf : leaf ∈ p.walkIn device) (hflow : (p.op leaf).is "aie.flow" = true) {box id : OpId} :
    (box ∈ q.findIn device "aie.switchbox" ∧ id ∈ q.children (some box) ∧
        (q.op id).is "aie.connect" = true) ↔
      box ∈ p.findIn device "aie.switchbox" ∧ id ∈ p.children (some box) ∧
        (p.op id).is "aie.connect" = true := by
  have hdevice : device ∈ q.walk :=
    (h.walk device).2 ⟨hp.inBody, by rintro rfl; exact hp.notMem_walkIn hleaf⟩
  have hchild : box ∈ p.findIn device "aie.switchbox" →
      (id ∈ q.children (some box) ↔ id ∈ p.children (some box) ∧ id ≠ leaf) := by
    intro hbox
    obtain ⟨hin, hname⟩ := List.mem_filter.1 hbox
    exact h.children box ((h.walk box).2
      ⟨hp.mem_walk hin, ne_of_is_flow hflow hname (by decide)⟩) id
  have hfind : box ∈ q.findIn device "aie.switchbox" ↔ box ∈ p.findIn device "aie.switchbox" := by
    simp only [findIn, List.mem_filter, h.walkIn device hdevice, h.op]
    exact ⟨fun hmem => ⟨hmem.1.1, hmem.2⟩, fun hmem =>
      ⟨⟨hmem.1, ne_of_is_flow hflow hmem.2 (by decide)⟩, hmem.2⟩⟩
  rw [hfind, h.op]
  constructor
  · rintro ⟨hbox, hid, hname⟩
    exact ⟨hbox, ((hchild hbox).1 hid).1, hname⟩
  · rintro ⟨hbox, hid, hname⟩
    exact ⟨hbox, (hchild hbox).2 ⟨hid, ne_of_is_flow hflow hname (by decide)⟩, hname⟩

/-- A flow that is erased changes no connection. -/
theorem Drops.routes (h : p.Drops leaf q) (hp : p.Routable device) (hleaf : leaf ∈ p.walkIn device)
    (hflow : (p.op leaf).is "aie.flow" = true) : p.Routes device [] [leaf] q := by
  have hdevice : device ∈ q.walk :=
    (h.walk device).2 ⟨hp.inBody, by rintro rfl; exact hp.notMem_walkIn hleaf⟩
  refine ⟨⟨h.wellFormed, hdevice, h.values hp.values, fun box hbox id hid hname => ?_⟩, ?_,
    fun id hid hne => ?_, fun id _ _ => h.op id ▸ .refl _,
    fun v t => (h.tileOf? hp.values hflow).2, fun id hid hne _ hnil => ?_⟩
  · obtain ⟨hboxp, hidp, hnamep⟩ := (h.connection_iff hp hleaf hflow).1 ⟨hbox, hid, hname⟩
    obtain ⟨t, ht⟩ := hp.placed box hboxp id hidp hnamep
    exact ⟨t, (h.switchboxTile? hp.values hflow).2 ht⟩
  · rw [withConnections_nil]
    funext c
    refine propext ⟨?_, ?_⟩
    · rintro ⟨box, hbox, htile, id, hid, hname, hchannels⟩
      obtain ⟨hboxp, hidp, hnamep⟩ := (h.connection_iff hp hleaf hflow).1 ⟨hbox, hid, hname⟩
      exact ⟨box, hboxp, (h.switchboxTile? hp.values hflow).1 htile, id, hidp, hnamep,
        h.op id ▸ hchannels⟩
    · rintro ⟨box, hbox, htile, id, hid, hname, hchannels⟩
      obtain ⟨hboxq, hidq, hnameq⟩ := (h.connection_iff hp hleaf hflow).2 ⟨hbox, hid, hname⟩
      exact ⟨box, hboxq, (h.switchboxTile? hp.values hflow).2 htile, id, hidq, hnameq,
        (h.op id).symm ▸ hchannels⟩
  · rw [List.mem_singleton] at hne
    exact (h.walkIn device hdevice id).2 ⟨hid, hne⟩
  · rw [List.mem_singleton] at hne
    rw [List.eq_nil_iff_forall_not_mem]
    intro child hchild
    have := ((h.children id ((h.walk id).2 ⟨hp.mem_walk hid, hne⟩) child).1 hchild).1
    rw [hnil] at this
    cases this

end Program

end TileFlow
