import TileFlow.Proofs.Routing.Circuit
import TileFlow.Proofs.Stage.Hidden

/-!
# Streams of object FIFOs

The channels of a FIFO's stream are told by counting: on each of its two tiles, it gets the number
of the streams that use a DMA channel there. No stream of a FIFO shares a channel with another one,
as each of them is counted from then on; a flow that the source has can clash with it only if its
channel is not less than the number of such flows.

## Main definitions

* `Program.streamsAt`: the flows of a device that use a DMA channel of a tile.
* `Program.SameFlows`: edits that leave the flows of a device.
* `Program.Streams`: streams that were created for FIFOs.

## Main results

* `Program.Streams.create`: one more stream.
* `Program.Streams.fifos`: the lowering of FIFOs.
* `canonicalizeSource_streams`: with which flows the stream of a FIFO can clash.
-/

namespace TileFlow

open TileFlow.Action

variable {rule : EditRule} {base p q : Program} {device : OpId} {names : List String}

/-! ### Ends of streams -/

/-- Whether an operation uses a DMA channel of a tile at an end. -/
def Program.usesDma (p : Program) (op : Operation) (tile : Tile) (e : StreamEnd) : Bool :=
  op.operandText? (e.firstOperand + 1) == some "DMA" &&
    (op.operandValue? e.firstOperand).bind p.tileOf? == some tile

/-- The flows of a device that use a DMA channel of a tile at an end, where `base` tells which tiles
values name. -/
def Program.streamsAt (base p : Program) (device : OpId) (tile : Tile) (e : StreamEnd) :
    List OpId :=
  (p.findIn device "aie.flow").filter fun id => base.usesDma (p.op id) tile e

/-- An endpoint from its three operands. -/
theorem Program.endpoint?_eq_some {op : Operation} {first : Nat} {value bundle : String}
    {tile : Tile} {index : Int} (hvalue : op.operandValue? first = some value)
    (htile : p.tileOf? value = some tile) (hbundle : op.operandText? (first + 1) = some bundle)
    (hindex : op.operandInt? (first + 2) = some index) :
    p.endpoint? op first = some ⟨tile, ⟨bundle, index⟩⟩ := by
  rw [endpoint?, hvalue, Option.bind_some, htile, hbundle, hindex]

/-- An endpoint is read off the operands. -/
theorem Program.endpoint?_congr {a b : Operation} (h : a.operands = b.operands) (first : Nat) :
    p.endpoint? a first = p.endpoint? b first := by
  simp only [endpoint?, Operation.operandValue?, Operation.operandText?, Operation.operandInt?, h]

/-- Which channel of a tile is used is read off the operands. -/
theorem Program.usesDma_congr {a b : Operation} (h : a.operands = b.operands) (tile : Tile)
    (e : StreamEnd) : p.usesDma a tile e = p.usesDma b tile e := by
  simp only [usesDma, Operation.operandValue?, Operation.operandText?, h]

/-- An endpoint tells which tile and which bundle are used. -/
theorem Program.usesDma_of_endpoint? {op : Operation} {tile : Tile} {e : StreamEnd} {n : Int}
    (h : p.endpoint? op e.firstOperand = some ⟨tile, ⟨"DMA", n⟩⟩) : p.usesDma op tile e = true := by
  rw [endpoint?] at h
  split at h
  · rename_i t bundle index htile hbundle hindex
    cases h
    simp [usesDma, htile, hbundle]
  · cases h

/-- A channel in use stays so when more values denote tiles. -/
theorem Program.usesDma_mono (h : ∀ v t, base.tileOf? v = some t → p.tileOf? v = some t)
    {op : Operation} {tile : Tile} {e : StreamEnd} (hop : base.usesDma op tile e = true) :
    p.usesDma op tile e = true := by
  rw [usesDma, Bool.and_eq_true, beq_iff_eq, beq_iff_eq] at hop ⊢
  obtain ⟨v, hv, ht⟩ := Option.bind_eq_some_iff.1 hop.2
  exact ⟨hop.1, by rw [hv, Option.bind_some, h v tile ht]⟩

/-- The number of channels in use is the number of streams, where the values name the same tiles. -/
theorem Program.dmaChannelsInUse_eq (h : ∀ v, p.tileOf? v = base.tileOf? v) (device : OpId)
    (tile : Tile) (e : StreamEnd) :
    p.dmaChannelsInUse device tile e = (base.streamsAt p device tile e).length := by
  have heq : p.tileOf? = base.tileOf? := funext h
  rw [dmaChannelsInUse, streamsAt]
  simp only [usesDma, heq]

/-- The flows at one channel of a tile. -/
theorem Program.mem_streamsAt {tile : Tile} {e : StreamEnd} {id : OpId} :
    id ∈ base.streamsAt p device tile e ↔
      id ∈ p.findIn device "aie.flow" ∧ base.usesDma (p.op id) tile e = true :=
  List.mem_filter

/-! ### Streams of FIFOs -/

/-- The names of the operations that streams and their channels come from. -/
def streamNames : List String :=
  ["aie.flow", "aie.objectfifo"]

/-- Streams that a device got since `base`. On each of its two tiles, such a stream has a channel
that is not less than the number of streams there before, and less than the number of them now; and
no two of them have an endpoint in common. -/
structure Program.Streams (base : Program) (device : OpId) (p : Program) : Prop where
  kept : ∀ flow ∈ base.findIn device "aie.flow", flow ∈ p.findIn device "aie.flow" ∧
    (p.op flow).operands = (base.op flow).operands
  numbered : ∀ flow ∈ p.findIn device "aie.flow", base.slots.size ≤ flow → ∀ e : StreamEnd,
    ∃ tile, ∃ n : Nat, base.endpoint? (p.op flow) e.firstOperand = some ⟨tile, ⟨"DMA", n⟩⟩ ∧
      (base.streamsAt base device tile e).length ≤ n ∧
      n < (base.streamsAt p device tile e).length
  apart : ∀ a ∈ p.findIn device "aie.flow", base.slots.size ≤ a →
    ∀ b ∈ p.findIn device "aie.flow", base.slots.size ≤ b → ∀ e : StreamEnd,
      base.endpoint? (p.op a) e.firstOperand = base.endpoint? (p.op b) e.firstOperand → a = b

namespace Program

/-- A sound program has its own streams. -/
theorem Streams.refl (hbase : base.Sound) : base.Streams device base := by
  have hold : ∀ flow ∈ base.findIn device "aie.flow", ¬ base.slots.size ≤ flow := fun flow hflow =>
    Nat.not_le.2 (hbase.lt_size_of_walkIn (List.mem_filter.1 hflow).1)
  exact ⟨fun flow hflow => ⟨hflow, rfl⟩, fun flow hflow hge => absurd hge (hold flow hflow),
    fun a ha hge => absurd hge (hold a ha)⟩

/-- Whether a device still has its flows, with the same operands. -/
def KeepsFlows (device : OpId) (p q : Program) : Prop :=
  ∀ id ∈ p.findIn device "aie.flow", id ∈ q.findIn device "aie.flow" ∧
    (q.op id).operands = (p.op id).operands

/-- Keeping the flows is transitive. -/
theorem KeepsFlows.trans {r : Program} (h : KeepsFlows device p q) (h' : KeepsFlows device q r) :
    KeepsFlows device p r := fun id hid =>
  have hq := h id hid
  have hr := h' id hq.1
  ⟨hr.1, hr.2.trans hq.2⟩

/-- Whether a device has the same flows as before, with the same operands. -/
structure SameFlows (device : OpId) (p q : Program) : Prop where
  kept : KeepsFlows device p q
  old : ∀ id ∈ q.findIn device "aie.flow", id ∈ p.findIn device "aie.flow"

/-- Streams are counted on when all of them stay. -/
theorem streamsAt_length_le (hp : p.WellFormed) (hdevice : device ∈ p.walk)
    (hkept : KeepsFlows device p q) (tile : Tile) (e : StreamEnd) :
    (base.streamsAt p device tile e).length ≤ (base.streamsAt q device tile e).length := by
  refine List.Nodup.length_le_of_subset ((hp.nodup_findIn hdevice _).filter _) fun id hid => ?_
  obtain ⟨hflow, huses⟩ := mem_streamsAt.1 hid
  obtain ⟨hflowq, hoperands⟩ := hkept id hflow
  exact mem_streamsAt.2 ⟨hflowq, by rwa [usesDma_congr hoperands]⟩

/-- Where the device has the same flows, its streams are the same. -/
theorem Streams.congr (h : base.Streams device p) (hp : p.WellFormed) (hdevice : device ∈ p.walk)
    (hsame : SameFlows device p q) : base.Streams device q where
  kept := KeepsFlows.trans h.kept hsame.kept
  numbered flow hflow hge e := by
    have hflowp := hsame.old flow hflow
    obtain ⟨tile, n, hend, hle, hlt⟩ := h.numbered flow hflowp hge e
    refine ⟨tile, n, ?_, hle,
      Nat.lt_of_lt_of_le hlt (streamsAt_length_le hp hdevice hsame.kept tile e)⟩
    rwa [endpoint?_congr (hsame.kept flow hflowp).2]
  apart a ha hgea b hb hgeb e hab := by
    have hap := hsame.old a ha
    have hbp := hsame.old b hb
    rw [endpoint?_congr (hsame.kept a hap).2, endpoint?_congr (hsame.kept b hbp).2] at hab
    exact h.apart a hap hgea b hbp hgeb e hab

/-- A new operation leaves the flows that there are. -/
theorem Created.keepsFlows {parent : Option OpId} {op : Operation} (h : p.Created parent op q)
    (hp : p.Sound) (hdevice : device ∈ p.walk) : KeepsFlows device p q := fun _ hid =>
  ⟨h.mem_findIn hp hdevice hid,
    (h.old _ (hp.lt_size_of_walkIn (List.mem_filter.1 hid).1)).operands⟩

/-- A new stream is counted. -/
theorem streamsAt_length_lt (hp : p.Sound) (hdevice : device ∈ p.walk)
    (hkept : KeepsFlows device p q) (hnew : p.slots.size ∈ q.findIn device "aie.flow")
    {tile : Tile} {e : StreamEnd} (huses : base.usesDma (q.op p.slots.size) tile e = true) :
    (base.streamsAt p device tile e).length < (base.streamsAt q device tile e).length := by
  have hnodup : (p.slots.size :: base.streamsAt p device tile e).Nodup :=
    List.nodup_cons.2 ⟨fun hmem => Nat.lt_irrefl _
      (hp.lt_size_of_walkIn (List.mem_filter.1 (mem_streamsAt.1 hmem).1).1),
      (hp.nodup_findIn hdevice _).filter _⟩
  refine hnodup.length_le_of_subset fun id hid => ?_
  rcases List.mem_cons.1 hid with rfl | hid
  · exact mem_streamsAt.2 ⟨hnew, huses⟩
  · obtain ⟨hflow, huses⟩ := mem_streamsAt.1 hid
    obtain ⟨hflowq, hoperands⟩ := hkept id hflow
    exact mem_streamsAt.2 ⟨hflowq, by rwa [usesDma_congr hoperands]⟩

/-- A new stream of one of the devices whose channels are the numbers of streams there. -/
theorem Streams.create {parent : Option OpId} {op : Operation} {owner : OpId}
    (h : base.Streams device p) (hbase : base.Sound) (hp : p.Sound) (hdeviceb : device ∈ base.walk)
    (hdevice : device ∈ p.devices) (howner : owner ∈ p.devices) (hwithin : p.Within owner parent)
    (hends : ∀ e : StreamEnd, ∃ tile, base.endpoint? op e.firstOperand =
      some ⟨tile, ⟨"DMA", ((base.streamsAt p owner tile e).length : Nat)⟩⟩)
    (hq : p.Created parent op q) : base.Streams device q := by
  have hwalk := mem_walk_of_mem_devices hdevice
  have hcases : ∀ flow ∈ q.findIn device "aie.flow", flow ∈ p.findIn device "aie.flow" ∨
      (flow = p.slots.size ∧ device = owner) := fun flow hflow =>
    hq.findIn_cases hp (mem_devices.1 hdevice).1 (mem_devices.1 howner).1 hwithin hflow
  have hkept := hq.keepsFlows hp hwalk
  have hnew : ∀ e : StreamEnd, ∃ tile, base.endpoint? (q.op p.slots.size) e.firstOperand =
      some ⟨tile, ⟨"DMA", ((base.streamsAt p owner tile e).length : Nat)⟩⟩ := fun e => by
    rw [endpoint?_congr hq.header.operands]
    exact hends e
  -- The streams of before have channels that are less than their number, which the new one has.
  have hclash : ∀ flow ∈ p.findIn device "aie.flow", base.slots.size ≤ flow → device = owner →
      ∀ e : StreamEnd, base.endpoint? (q.op flow) e.firstOperand ≠
        base.endpoint? (q.op p.slots.size) e.firstOperand := by
    rintro flow hflow hge rfl e heq
    obtain ⟨tile, n, hend, -, hlt⟩ := h.numbered flow hflow hge e
    obtain ⟨tile', hend'⟩ := hnew e
    rw [endpoint?_congr (hkept flow hflow).2, hend, hend'] at heq
    simp only [Option.some.injEq, Endpoint.mk.injEq, Channel.mk.injEq, Int.natCast_inj] at heq
    obtain ⟨rfl, -, rfl⟩ := heq
    exact Nat.lt_irrefl _ hlt
  refine ⟨KeepsFlows.trans h.kept hkept, fun flow hflow hge e => ?_,
    fun a ha hgea b hb hgeb e hab => ?_⟩
  · rcases hcases flow hflow with hold | ⟨rfl, rfl⟩
    · obtain ⟨tile, n, hend, hle, hlt⟩ := h.numbered flow hold hge e
      refine ⟨tile, n, ?_, hle,
        Nat.lt_of_lt_of_le hlt (streamsAt_length_le hp.toWellFormed hwalk hkept tile e)⟩
      rwa [endpoint?_congr (hkept flow hold).2]
    · obtain ⟨tile, hend⟩ := hnew e
      exact ⟨tile, _, hend, streamsAt_length_le hbase.toWellFormed hdeviceb h.kept tile e,
        streamsAt_length_lt hp hwalk hkept hflow (usesDma_of_endpoint? hend)⟩
  · rcases hcases a ha with holda | ⟨rfl, heq⟩ <;> rcases hcases b hb with holdb | ⟨rfl, heq'⟩
    · rw [endpoint?_congr (hkept a holda).2, endpoint?_congr (hkept b holdb).2] at hab
      exact h.apart a holda hgea b holdb hgeb e hab
    · exact absurd hab (hclash a holda hgea heq' e)
    · exact absurd hab.symm (hclash b holdb hgeb heq e)
    · rfl

/-! ### Steps -/

/-- A new operation that is no flow adds none. -/
theorem Created.sameFlows {parent : Option OpId} {op : Operation} (h : p.Created parent op q)
    (hp : p.Sound) (hdevice : device ∈ p.walk) (hop : op.is "aie.flow" = false) :
    SameFlows device p q where
  kept := h.keepsFlows hp hdevice
  old id hid := by
    obtain ⟨hin, hname⟩ := List.mem_filter.1 hid
    rcases (h.walkIn device hdevice id).1 hin with hin | ⟨rfl, -⟩
    · rw [(h.old id (hp.lt_size_of_walkIn hin)).is] at hname
      exact List.mem_filter.2 ⟨hin, hname⟩
    · rw [h.header.is, hop] at hname
      cases hname

/-- A change that makes no flow, and leaves the operands of flows, leaves the flows. -/
theorem sameFlows_modify {j : OpId} {f : Operation → Operation} (hj : j < p.slots.size)
    (hname : (f (p.op j)).is "aie.flow" = (p.op j).is "aie.flow")
    (hoperands : (p.op j).is "aie.flow" = true → (f (p.op j)).operands = (p.op j).operands) :
    SameFlows device p (p.modify j f) := by
  have hsame : ∀ id, ((p.modify j f).op id).is "aie.flow" = (p.op id).is "aie.flow" ∧
      ((p.op id).is "aie.flow" = true →
        ((p.modify j f).op id).operands = (p.op id).operands) := fun id => by
    by_cases hidj : id = j
    · subst hidj
      rw [op_modify_self hj]
      exact ⟨hname, hoperands⟩
    · rw [op_modify_of_ne hidj]
      exact ⟨rfl, fun _ => rfl⟩
  refine ⟨fun id hid => ?_, fun id hid => ?_⟩
  · obtain ⟨hin, hname⟩ := List.mem_filter.1 hid
    exact ⟨List.mem_filter.2 ⟨hin, (hsame id).1.trans hname⟩, (hsame id).2 hname⟩
  · obtain ⟨hin, hname⟩ := List.mem_filter.1 hid
    exact List.mem_filter.2 ⟨hin, (hsame id).1.symm.trans hname⟩

/-- An operation that is erased leaves the flows if it is none and has none below it. -/
theorem Cut.sameFlows {x : OpId} (h : p.Cut x q) (hp : p.Sound) (hdevice : device ∈ p.walk)
    (hdeviceq : device ∈ q.walk) (hx : (p.op x).name ∈ discardedNames)
    (hhides : p.HidesNone discardedNames streamNames) : SameFlows device p q where
  kept id hid := by
    obtain ⟨hin, hname⟩ := List.mem_filter.1 hid
    have hwalk := hp.mem_walk_of_walkIn hdevice hin
    have hflow : (p.op id).name = "aie.flow" := beq_iff_eq.1 hname
    have hwalkq : id ∈ q.walk := by
      refine (h.walk id).2 ⟨hwalk, ?_, fun hidx => ?_⟩
      · rintro rfl
        rw [hflow] at hx
        exact absurd hx (by decide)
      · refine hhides x (hp.mem_walk_of_below hidx hwalk) hx id hidx ?_
        rw [hflow]
        exact List.mem_cons_self
    rw [h.op]
    refine ⟨List.mem_filter.2 ⟨(h.walkIn device hdeviceq id).2 ⟨hin, hwalkq⟩, ?_⟩, rfl⟩
    rwa [h.op]
  old id hid := by
    obtain ⟨hin, hname⟩ := List.mem_filter.1 hid
    rw [h.op] at hname
    exact List.mem_filter.2 ⟨((h.walkIn device hdeviceq id).1 hin).1, hname⟩

/-- Edits that create no flow, do not touch flows, and erase no operation above one leave the
flows. -/
theorem Edit.sameFlows (hrule : rule.KeepsValues discardedNames)
    (hleaves : rule.LeavesOperands "aie.flow") (hp : p.Sound)
    (hhides : p.HidesNone discardedNames streamNames) (hdevice : device ∈ p.walk)
    (hdeviceq : device ∈ q.walk)
    (creates : ∀ parent op, rule.creates p parent op → op.is "aie.flow" = false)
    (h : p.Edit rule q) : SameFlows device p q := by
  cases h with
  | create parent i op hop =>
      exact (created_insertAt hp parent i op).sameFlows hp hdevice (creates parent op hop)
  | change j f hj hop =>
      exact sameFlows_modify hj (hleaves.is_eq p j _ hop) (hleaves.operands p j _ hop)
  | erase x hx hop =>
      exact (cut_erase hp hx).sameFlows hp hdevice hdeviceq (hrule.erases p x hop) hhides

end Program

/-! ### The rules of the stages -/

/-- Edits that leave the streams: they create no flow, do not touch flows, and erase no operation
above one. -/
structure EditRule.LeavesStreams (rule : EditRule) : Prop where
  keepsValues : rule.KeepsValues discardedNames
  exposes : rule.Exposes streamNames
  operands : rule.LeavesOperands "aie.flow"
  sparesDevices : rule.SparesDevices
  creates : ∀ p parent op, rule.creates p parent op → op.is "aie.flow" = false

/-- A rule whose new operations carry no stream leaves the streams. -/
theorem EditRule.Names.leavesStreams (h : rule.Names names)
    (hnames : ∀ name ∈ names, name ∉ streamNames) (hkeeps : rule.KeepsValues discardedNames)
    (hoperands : rule.LeavesOperands "aie.flow") (hspares : rule.SparesDevices) :
    rule.LeavesStreams where
  keepsValues := hkeeps
  exposes := h.exposes hnames
  operands := hoperands
  sparesDevices := hspares
  creates p parent op hop :=
    Operation.not_is_of_mem (h.creates p parent op hop) fun hmem => hnames _ hmem List.mem_cons_self

/-- Several rules that leave the streams do so together. -/
theorem EditRule.any_leavesStreams {rules : List EditRule}
    (h : ∀ rule ∈ rules, rule.LeavesStreams) : (any rules).LeavesStreams where
  keepsValues := any_keepsValues fun rule hrule => (h rule hrule).keepsValues
  exposes := any_exposes fun rule hrule => (h rule hrule).exposes
  operands := any_leavesOperands fun rule hrule => (h rule hrule).operands
  sparesDevices := any_sparesDevices fun rule hrule => (h rule hrule).sparesDevices
  creates p parent op := fun ⟨rule, hrule, hop⟩ => (h rule hrule).creates p parent op hop

/-- Giving locks identifiers leaves the streams. -/
theorem EditRule.lockIds_leavesStreams : EditRule.lockIds.LeavesStreams :=
  lockIds_names.leavesStreams (by decide) lockIds_keepsValues (lockIds_leavesOperands (by decide))
    lockIds_sparesDevices

/-- Registering processes leaves the streams. -/
theorem EditRule.processes_leavesStreams : EditRule.processes.LeavesStreams :=
  processes_names.leavesStreams (by decide) processes_keepsValues
    (leavesOperands_of_unchanged fun _ _ _ hop => hop) processes_sparesDevices

/-- Lowering broadcasts leaves the streams. -/
theorem EditRule.broadcasts_leavesStreams : EditRule.broadcasts.LeavesStreams :=
  broadcasts_names.leavesStreams (by decide) broadcasts_keepsValues
    (leavesOperands_of_unchanged fun _ _ _ hop => hop) broadcasts_sparesDevices

/-- Routing packet flows leaves the streams. -/
theorem EditRule.packets_leavesStreams : EditRule.packets.LeavesStreams :=
  packets_names.leavesStreams (by decide) packets_keepsValues
    (leavesOperands_of_unchanged fun _ _ _ hop => hop) packets_sparesDevices

/-- Giving buffers addresses leaves the streams. -/
theorem EditRule.addresses_leavesStreams : EditRule.addresses.LeavesStreams :=
  addresses_names.leavesStreams (by decide) addresses_keepsValues addresses_leavesOperands
    addresses_sparesDevices

/-- Lowering loops leaves the streams. -/
theorem EditRule.structured_leavesStreams : EditRule.structured.LeavesStreams :=
  structured_names.leavesStreams (by decide) structured_keepsValues
    (structured_leavesOperands (by decide)) structured_sparesDevices

/-- Lowering FIFOs hides no stream. -/
theorem EditRule.fifos_exposes : EditRule.fifos.Exposes streamNames where
  creates p parent op hop _ := by
    obtain ⟨-, fifo, hfifo, habove⟩ := hop
    refine ⟨fifo, ?_, habove⟩
    rw [beq_iff_eq.1 hfifo]
    decide
  changes p id op hop hmem := by
    obtain ⟨name, locks, rfl⟩ := hop
    rcases lowerAccess_cases name locks (p.op id) with h | ⟨-, -, h, -⟩
    · rwa [h] at hmem
    · rw [h] at hmem
      exact absurd hmem (by decide)

namespace Program

/-- Edits that leave the streams, one after the other. -/
theorem Streams.edits (h : base.Streams device p) (hrule : rule.LeavesStreams) (hp : p.Sound)
    (hhides : p.HidesNone discardedNames streamNames) (hdevice : device ∈ q.devices)
    (hedits : p.Edits rule q) : base.Streams device q := by
  have hspares := hrule.sparesDevices
  replace hdevice := (hedits.mem_devices hspares hp).1 hdevice
  induction hedits with
  | refl => exact h
  | @tail r s hr hedit ih =>
      have hr : p.Edits rule r := hr
      have hsound := hr.sound hp
      have hdevicer := (hr.mem_devices hspares hp).2 hdevice
      have hwalk := mem_walk_of_mem_devices hdevicer
      exact ih.congr hsound.toWellFormed hwalk (hedit.sameFlows hrule.keepsValues hrule.operands
        hsound (hhides.edits hrule.keepsValues hrule.exposes hp hr) hwalk
        (mem_walk_of_mem_devices ((hedit.mem_devices hspares hsound).2 hdevicer)) (hrule.creates r))

/-- One edit of the lowering of FIFOs. -/
theorem Streams.fifo (hbase : base.Sound) (hvalues : base.definedValues.Nodup)
    (hnone : base.DefinesNone discardedNames) (hp : base.Edits .numbering p)
    (hhides : p.HidesNone discardedNames streamNames)
    (hs : ∀ device ∈ p.devices, base.Streams device p) (h : p.Edit .fifos q) :
    ∀ device ∈ q.devices, base.Streams device q := by
  intro device hdevice
  have hsound := hp.sound hbase
  have hdevicep := (h.mem_devices EditRule.fifos_sparesDevices hsound).1 hdevice
  rcases h.without_or hsound "aie.flow" with
    h | ⟨parent, op, ⟨⟨owner, howner, hpart⟩, -⟩, hflow, hq⟩
  · have hwalk := mem_walk_of_mem_devices hdevicep
    exact (hs device hdevicep).congr hsound.toWellFormed hwalk (h.sameFlows
      (EditRule.fifos_keepsValues.without _) ((EditRule.fifos_leavesOperands (by decide)).without _)
      hsound hhides hwalk (mem_walk_of_mem_devices hdevice) fun _ _ hop => hop.2)
  cases hpart with
  | slot _ _ _ hname =>
      exact absurd (Operation.is_inj hname hflow) (by decide)
  | lock _ _ _ _ hname =>
      exact absurd (Operation.is_inj hname hflow) (by decide)
  | allocation _ hname =>
      exact absurd (Operation.is_inj hname hflow) (by decide)
  | stream producer consumer source destination hproducer hconsumer hwithin =>
      -- No tile is new and none is gone, so that values name the same tiles as when locks were
      -- numbered.
      have htiles : ∀ v, p.tileOf? v = base.tileOf? v := fun v => Option.ext fun t =>
        ⟨hp.tileOf?_of_old EditRule.numbering_keepsValues hbase hvalues
          fun _ _ _ => EditRule.numbering_creates,
        (hp.resolves_of_definesNone EditRule.numbering_keepsValues hbase hnone).tileOf?
          (hp.nodup hbase hvalues)⟩
      rw [htiles] at hproducer hconsumer
      have hdeviceb := (hp.mem_devices EditRule.numbering_sparesDevices hbase).1 hdevicep
      refine (hs device hdevicep).create hbase hsound (mem_walk_of_mem_devices hdeviceb) hdevicep
        howner hwithin (fun e => ?_) hq
      simp only [← dmaChannelsInUse_eq htiles]
      cases e with
      | source => exact ⟨source, endpoint?_eq_some rfl hproducer rfl rfl⟩
      | destination => exact ⟨destination, endpoint?_eq_some rfl hconsumer rfl rfl⟩

/-- The lowering of FIFOs. -/
theorem Streams.fifos (hbase : base.Sound) (hvalues : base.definedValues.Nodup)
    (hnone : base.DefinesNone discardedNames) (hp : base.Edits .numbering p)
    (hhides : p.HidesNone discardedNames streamNames)
    (hs : ∀ device ∈ p.devices, base.Streams device p) (h : p.Edits .fifos q) :
    ∀ device ∈ q.devices, base.Streams device q := by
  induction h with
  | refl => exact hs
  | tail hr hedit ih =>
      exact Streams.fifo hbase hvalues hnone (hp.trans (Edits.any hr (by simp)))
        (hhides.edits EditRule.fifos_keepsValues EditRule.fifos_exposes (hp.sound hbase) hr)
        ih hedit

end Program

/-! ### The pipeline -/

/-- The streams of a program without FIFOs. -/
theorem LoweringRun.streams (c : LoweringRun p q) (hnone : c.base.DefinesNone discardedNames)
    (hhides : c.base.HidesNone discardedNames streamNames) :
    c.fifos.HidesNone discardedNames streamNames ∧
      ∀ device ∈ c.fifos.devices, c.base.Streams device c.fifos := by
  let before := EditRule.any [.lockIds, .processes]
  have hbefore : before.LeavesStreams := EditRule.any_leavesStreams (by
    simp [EditRule.lockIds_leavesStreams, EditRule.processes_leavesStreams])
  have hedits : c.base.Edits before c.processes :=
    (c.lockIds_edits.any (by simp)).trans (c.processes_edits.any (by simp))
  have hhides' := hhides.edits hbefore.keepsValues hbefore.exposes c.base_sound hedits
  refine ⟨hhides'.edits EditRule.fifos_keepsValues EditRule.fifos_exposes c.processes_sound
    c.fifos_edits, ?_⟩
  exact Program.Streams.fifos c.base_sound c.base_values hnone
    ((c.lockIds_edits.any (by simp)).trans (c.processes_edits.any (by simp))) hhides'
    (fun device hdevice =>
      (Program.Streams.refl c.base_sound).edits hbefore c.base_sound hhides hdevice hedits)
    c.fifos_edits

/-- No stage up to the lowering of multicasts creates one, so that it has nothing to do if there was
none. -/
theorem LoweringRun.multicasts_eq_self (c : LoweringRun p q)
    (hnone : ∀ id ∈ c.base.walk, (c.base.op id).name ≠ "aiex.multicast") : c.packets = q := by
  let rule := EditRule.any [.lockIds, .processes, .fifos, .broadcasts, .packets]
  have hkeeps : rule.Keeps fun op => op.name ≠ "aiex.multicast" := by
    refine EditRule.any_keeps (fun _ _ hab ha => hab.name.symm ▸ ha) fun rule hrule => ?_
    simp only [List.mem_cons, List.not_mem_nil, or_false] at hrule
    rcases hrule with rfl | rfl | rfl | rfl | rfl
    · exact EditRule.lockIds_names.keeps_ne (by decide)
    · exact EditRule.processes_names.keeps_ne (by decide)
    · exact EditRule.fifos_names.keeps_ne (by decide)
    · exact EditRule.broadcasts_names.keeps_ne (by decide)
    · exact EditRule.packets_names.keeps_ne (by decide)
  have hedits : c.base.Edits rule c.packets :=
    (((c.lockIds_edits.any (by simp)).trans (c.processes_edits.any (by simp))).trans
      (c.fifos_edits.any (by simp))).trans
        ((c.broadcasts_edits.any (by simp)).trans (c.packets_edits.any (by simp)))
  have hpackets := hedits.forall_walk hkeeps c.base_sound hnone
  have hidle : runOn Stage.lowerMulticast.action c.packets = (.ok (), c.packets) :=
    Stage.findIn_idle fun device hdevice id hid => beq_eq_false_iff_ne.2 (hpackets id
      (c.packets_sound.mem_walk_of_walkIn (Program.mem_walk_of_mem_devices hdevice) hid))
  exact (Prod.mk.inj (hidle.symm.trans c.multicasts_run)).2

/-- Without multicasts, the streams of a canonical program are those of FIFOs. -/
theorem LoweringRun.streams_canonical {s m : Program} (c : LoweringRun p q)
    (hnone : c.base.DefinesNone discardedNames)
    (hhides : c.base.HidesNone discardedNames streamNames)
    (hmulticast : ∀ id ∈ c.base.walk, (c.base.op id).name ≠ "aiex.multicast")
    (hbuffers : runOn Stage.assignBufferAddresses.action q = (.ok (), s))
    (hstructured : runOn Stage.lowerStructured.action s = (.ok (), m)) :
    ∀ device ∈ m.devices, c.base.Streams device m := by
  intro device hdevice
  obtain ⟨hhides', hstreams⟩ := c.streams hnone hhides
  obtain ⟨haddresses, -⟩ := assignBufferAddresses_edits c.lowered.sound c.lowered.values hbuffers
  rw [← c.multicasts_eq_self hmulticast] at haddresses
  obtain ⟨hrenamed, -⟩ := lowerStructured_edits (haddresses.sound c.packets_sound) hstructured
  let after := EditRule.any [.broadcasts, .packets, .addresses, .structured]
  have hafter : after.LeavesStreams := EditRule.any_leavesStreams (by
    simp [EditRule.broadcasts_leavesStreams, EditRule.packets_leavesStreams,
      EditRule.addresses_leavesStreams, EditRule.structured_leavesStreams])
  have hedits : c.fifos.Edits after m :=
    ((c.broadcasts_edits.any (by simp)).trans (c.packets_edits.any (by simp))).trans
      ((haddresses.any (by simp)).trans (hrenamed.any (by simp)))
  exact (hstreams device ((hedits.mem_devices hafter.sparesDevices c.fifos_sound).1 hdevice)).edits
    hafter c.fifos_sound hhides' hdevice hedits

/-! ### The source -/

/-- In a device, values name the tiles that they named before. -/
theorem LoweringRun.base_tileOf? (c : LoweringRun p q) {v : String} {t : Tile}
    (h : p.tileOf? v = some t) : c.base.tileOf? v = some t :=
  c.base_resolves.tileOf? c.base_values h

/-- How many flows of a device were there before, in `p`, and used a DMA channel of a tile at an
end. -/
def Program.writtenStreams (p q : Program) (device : OpId) (tile : Tile) (e : StreamEnd) : Nat :=
  ((q.findIn device "aie.flow").filter fun id =>
    decide (id < p.slots.size) && p.usesDma (p.op id) tile e).length

/-- A flow that is left in a device was there when FIFOs were lowered, or is created later. -/
theorem LoweringRun.mem_base_flows {m : Program} (c : LoweringRun p q)
    (hedits : c.base.Edits .fromLockIds m) (hdevice : device ∈ m.walk) {flow : OpId}
    (hflow : flow ∈ m.findIn device "aie.flow") (hlt : flow < c.base.slots.size) :
    flow ∈ c.base.findIn device "aie.flow" := by
  obtain ⟨hin, hname⟩ := List.mem_filter.1 hflow
  refine List.mem_filter.2 ⟨(hedits.evolves c.base_sound).mem_walkIn hdevice hin hlt, ?_⟩
  rwa [← hedits.is_eq c.base_sound (EditRule.fromLockIds_leavesOperands (by decide)).is_eq hlt]

/-- No flow is created before FIFOs are lowered. -/
theorem LoweringRun.base_size_le {m : Program} (c : LoweringRun p q)
    (hedits : c.base.Edits .fromLockIds m) (hdevice : device ∈ m.walk) {flow : OpId}
    (hflow : flow ∈ m.findIn device "aie.flow") (hge : p.slots.size ≤ flow) :
    c.base.slots.size ≤ flow := by
  obtain ⟨haffine, hwraps, -⟩ := c.base_ok
  refine Nat.le_of_not_lt fun hlt => ?_
  have hname := (List.mem_filter.1 (c.mem_base_flows hedits hdevice hflow hlt)).2
  rw [hwraps.new flow hlt (haffine.size_eq (fun _ _ _ hop => hop) ▸ hge)] at hname
  cases hname

/-- The flows of the source that are left in a device were there when FIFOs were lowered. -/
theorem LoweringRun.writtenStreams_le {m : Program} (c : LoweringRun p q)
    (hedits : c.base.Edits .fromLockIds m) (hdevice : device ∈ m.walk) (tile : Tile)
    (e : StreamEnd) :
    p.writtenStreams m device tile e ≤ (c.base.streamsAt c.base device tile e).length := by
  have hnodup := (hedits.sound c.base_sound).nodup_findIn hdevice "aie.flow"
  refine List.Nodup.length_le_of_subset (hnodup.filter _) fun id hid => ?_
  obtain ⟨hflow, hwritten⟩ := List.mem_filter.1 hid
  rw [Bool.and_eq_true, decide_eq_true_eq] at hwritten
  obtain ⟨hlt, huses⟩ := hwritten
  refine Program.mem_streamsAt.2
    ⟨c.mem_base_flows hedits hdevice hflow (Nat.lt_of_lt_of_le hlt c.size_le), ?_⟩
  rw [Program.usesDma_congr (c.base_operands hlt)]
  exact Program.usesDma_mono (fun _ _ => c.base_tileOf?) huses

/-- **Streams of FIFOs.** In the canonical program of a source without multicasts, whose operations
that the pipeline erases have no value, flow or FIFO below them, the channel of a flow that is not
one of the source is, on both of its tiles, that of no other flow, apart from flows of the source
whose channel is not less than the number of them. -/
theorem canonicalizeSource_streams {source : String} {m : Program}
    (hparse : Source.parse source = .ok p) (hnone : p.DefinesNone discardedNames)
    (hhides : p.HidesNone discardedNames streamNames) (hmulticast : p.findAll "aiex.multicast" = [])
    (h : canonicalizeSource source = .ok m) :
    ∀ device ∈ m.devices, ∀ a ∈ m.findIn device "aie.flow", p.slots.size ≤ a → ∀ e : StreamEnd,
      ∃ tile, ∃ n : Nat, m.endpoint? (m.op a) e.firstOperand = some ⟨tile, ⟨"DMA", n⟩⟩ ∧
        ∀ b ∈ m.findIn device "aie.flow", b ≠ a →
          m.endpoint? (m.op b) e.firstOperand = some ⟨tile, ⟨"DMA", n⟩⟩ →
          b < p.slots.size ∧ p.writtenStreams m device tile e ≤ n := by
  obtain ⟨r, s, ⟨c⟩, hbuffers, hstructured⟩ := canonicalizeSource_run hparse h
  have hnoneb := c.base_definesNone hnone
  have hedits := c.fromLockIds_edits hbuffers hstructured
  have hstreams := c.streams_canonical hnoneb (c.base_hidesNone (by decide) hhides)
    (c.base_name_ne (by decide) (by decide) hmulticast) hbuffers hstructured
  have hresolves :=
    hedits.resolves_of_definesNone EditRule.fromLockIds_keepsValues c.base_sound hnoneb
  have htiles : ∀ v t, c.base.tileOf? v = some t → m.tileOf? v = some t := fun v t =>
    hresolves.tileOf? (hedits.nodup c.base_sound c.base_values)
  intro device hdevice a ha hgea e
  have hwalk := Program.mem_walk_of_mem_devices hdevice
  have hnew : ∀ flow ∈ m.findIn device "aie.flow", p.slots.size ≤ flow →
      c.base.slots.size ≤ flow := fun _ => c.base_size_le hedits hwalk
  obtain ⟨tile, n, hend, hle, -⟩ := (hstreams device hdevice).numbered a ha (hnew a ha hgea) e
  refine ⟨tile, n, Program.endpoint?_mono htiles hend, fun b hb hne hendb => ?_⟩
  refine ⟨Nat.lt_of_not_le fun hgeb => hne ?_,
    Nat.le_trans (c.writtenStreams_le hedits hwalk tile e) hle⟩
  -- The two endpoints are those that the flows had when they were created.
  obtain ⟨tile', n', hendb', -⟩ := (hstreams device hdevice).numbered b hb (hnew b hb hgeb) e
  rw [Program.endpoint?_mono htiles hendb', ← hend] at hendb
  exact (hstreams device hdevice).apart b hb (hnew b hb hgeb) a ha (hnew a ha hgea) e
    (hendb'.trans hendb)

/-- Two tiles with a flow and two FIFOs between them. -/
def streamSource : String :=
  "%a = aie.tile(0, 2)\n%b = aie.tile(0, 3)\naie.flow(%a, DMA, 0, %b, DMA, 0)\n" ++
  "aie.objectfifo(%a, %b) \x7bsize = 16, sym_name = f\x7d\n" ++
  "aie.objectfifo(%a, %b) \x7bsize = 16, sym_name = g\x7d"

/-- The two FIFOs get the next two channels after that of the flow. -/
theorem canonicalizeSource_streams_counted : ∃ p m, Source.parse streamSource = .ok p ∧
    p.DefinesNone discardedNames ∧ p.HidesNone discardedNames streamNames ∧
    p.findAll "aiex.multicast" = [] ∧ canonicalizeSource streamSource = .ok m ∧
    (m.findAll "aie.flow").map (fun flow => (m.endpoint? (m.op flow) 0).map (·.channel.index)) =
      [some 0, some 1, some 2] ∧
    ∀ device ∈ m.devices, ∀ a ∈ m.findIn device "aie.flow", p.slots.size ≤ a → ∀ e : StreamEnd,
      ∃ tile, ∃ n : Nat, m.endpoint? (m.op a) e.firstOperand = some ⟨tile, ⟨"DMA", n⟩⟩ ∧
        ∀ b ∈ m.findIn device "aie.flow", b ≠ a →
          m.endpoint? (m.op b) e.firstOperand = some ⟨tile, ⟨"DMA", n⟩⟩ →
          b < p.slots.size ∧ p.writtenStreams m device tile e ≤ n := by
  have hsource : ∃ p, Source.parse streamSource = .ok p ∧ p.DefinesNone discardedNames ∧
      p.HidesNone discardedNames streamNames ∧ p.findAll "aiex.multicast" = [] :=
    exists_ok_of_any (by decide +kernel)
  have hchannels : ∃ m, canonicalizeSource streamSource = .ok m ∧
      (m.findAll "aie.flow").map (fun flow => (m.endpoint? (m.op flow) 0).map (·.channel.index)) =
        [some 0, some 1, some 2] :=
    exists_ok_of_any (by decide +kernel)
  obtain ⟨p, hp, hnone, hhides, hmulticast⟩ := hsource
  obtain ⟨m, hm, hchannels⟩ := hchannels
  exact ⟨p, m, hp, hnone, hhides, hmulticast, hm, hchannels,
    canonicalizeSource_streams hp hnone hhides hmulticast hm⟩

/-- A flow of the source that leaves out a channel gets company: the stream of the FIFO leaves the
same tile from the same channel, and arrives on the same channel of the same tile. -/
theorem canonicalizeSource_streams_clash : ∃ source p m, Source.parse source = .ok p ∧
    canonicalizeSource source = .ok m ∧ ∃ device ∈ m.devices,
      ∃ a ∈ m.findIn device "aie.flow", p.slots.size ≤ a ∧
        ∃ b ∈ m.findIn device "aie.flow", b ≠ a ∧
          m.endpoint? (m.op a) 0 = some ⟨⟨0, 2⟩, ⟨"DMA", 1⟩⟩ ∧
          m.endpoint? (m.op b) 0 = some ⟨⟨0, 2⟩, ⟨"DMA", 1⟩⟩ ∧
          m.endpoint? (m.op a) 3 = some ⟨⟨0, 3⟩, ⟨"DMA", 1⟩⟩ ∧
          m.endpoint? (m.op b) 3 = some ⟨⟨0, 3⟩, ⟨"DMA", 1⟩⟩ := by
  let source := "%a = aie.tile(0, 2)\n%b = aie.tile(0, 3)\naie.flow(%a, DMA, 1, %b, DMA, 1)\n" ++
    "aie.objectfifo(%a, %b) \x7bsize = 16, sym_name = f\x7d"
  have hsource : ∃ p, Source.parse source = .ok p ∧ p.slots.size = 4 :=
    exists_ok_of_any (by decide +kernel)
  have hclash : ∃ m, canonicalizeSource source = .ok m ∧ ∃ device ∈ m.devices,
      ∃ a ∈ m.findIn device "aie.flow", 4 ≤ a ∧ ∃ b ∈ m.findIn device "aie.flow", b ≠ a ∧
        m.endpoint? (m.op a) 0 = some ⟨⟨0, 2⟩, ⟨"DMA", 1⟩⟩ ∧
        m.endpoint? (m.op b) 0 = some ⟨⟨0, 2⟩, ⟨"DMA", 1⟩⟩ ∧
        m.endpoint? (m.op a) 3 = some ⟨⟨0, 3⟩, ⟨"DMA", 1⟩⟩ ∧
        m.endpoint? (m.op b) 3 = some ⟨⟨0, 3⟩, ⟨"DMA", 1⟩⟩ :=
    exists_ok_of_any (by decide +kernel)
  obtain ⟨p, hp, hsize⟩ := hsource
  obtain ⟨m, hm, hclash⟩ := hclash
  refine ⟨source, p, m, hp, hm, ?_⟩
  rwa [hsize]

end TileFlow
