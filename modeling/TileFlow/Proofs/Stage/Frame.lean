import TileFlow.Proofs.Memory.Layout
import TileFlow.Proofs.Stage.Kept
import TileFlow.Proofs.Stage.Confined
import TileFlow.Proofs.Stage.Orderly

/-!
# Stages on devices change nothing else

A stage that works on devices does so one device after the other. What it does to one of them is
confined to the operations below it, whether the stage succeeds or gives up half-way: values and
symbols are looked up in the whole program, but nothing is put, changed or erased outside of the
device. Seen from one device, the stage has one turn, in which this device is visited; before it and
after it everything below the device stays as it is.

## Main definitions

* `Stage.deviceAction?`: what a stage does to one device.
* `Program.SameOutside`: programs that are the same outside of a device.
* `Program.SameBelow`: programs that are the same below an operation.
* `Stage.Turn`: the turn of a device.

## Main results

* `Stage.confined_deviceAction`: what a stage does to a device is confined to it.
* `Stage.device_frame`: everything outside of the device is as it was before.
* `Stage.deviceAction_elsewhere`: a visit leaves the other devices as they are.
* `Stage.onEachDevice_turn`: every device has a turn.
-/

namespace TileFlow

open TileFlow.Action

variable {c : Enclosure} {A : OpId → Prop} {a id core fifo device : OpId}

/-! ### Operations of an enclosure -/

/-- An operation that is found below the device, or below one inside, is inside. -/
theorem Enclosure.Encloses.inside_of_findIn {p : Program} {name : String} (hp : c.Encloses p)
    (ha : a = c.device ∨ c.inside a) (hid : id ∈ p.findIn a name) : c.inside id :=
  hp.inside_of_walkIn ha (List.mem_filter.1 hid).1

/-- A loop over the operations with a name. -/
theorem confined_forEach {f : OpId → Action Unit} (ha : a = c.device ∨ c.inside a)
    (hf : ∀ id A, c.inside id → Confined c A (f id) anything) (name : String) :
    Confined c A (do ((← get).findIn a name).forM f) anything :=
  .get_bind fun _ hp _ => .forM fun id hid => hf id _ (hp.inside_of_findIn ha hid)

/-- A loop over the operations with a name, each of which is cut out by its own round. -/
theorem confined_forEach_erasing {f : OpId → Action Unit} (ha : a = c.device ∨ c.inside a)
    (hf : ∀ id, c.inside id → ConfinedBut c (· = id) (· = id) (f id) anything) (name : String) :
    ConfinedBut c A anything (do ((← get).findIn a name).forM f) anything :=
  .get_bind fun _ hp _ =>
    (ConfinedBut.forM_erasing (hp.tree.nodup_findIn a name)
      (fun _ hid => hp.tree.linked_of_walkIn (List.mem_filter.1 hid).1)
      fun id hid => hf id (hp.inside_of_findIn ha hid)).mono
        (fun _ h => h) (fun _ _ => trivial) fun _ h => h

/-- A new operation before another one, and a result. -/
theorem confined_insertBefore_pure {α : Type} {b : α} (hA : A id) (hid : c.inside id)
    (op : Operation) : Confined c A (do
      let _ ← Action.insertBefore id op
      pure b) anything :=
  (confined_insertBefore hA hid op).bind fun _ _ => confined_pure trivial

/-! ### Locks and buffers -/

/-- Lock identifiers are assigned inside the device. -/
theorem confined_assignLockIds : Confined c A (assignLockIds c.device) anything := by
  refine .get_bind fun p hp _ => .bind
    (ConfinedBut.foldlM (Q := anything) trivial fun lock _ ledger _ => ?_) fun ledger _ =>
    .bind (ConfinedBut.foldlM (Q := anything) trivial fun lock hlock ledger _ => ?_) fun _ _ =>
      confined_pure trivial
  · refine .get_bind fun p _ _ => .bind (confined_orFail _ _) fun tile _ => ?_
    split
    · exact confined_pure trivial
    · exact .bind (confined_ensure _ _) fun _ _ => .bind (confined_ensure _ _) fun _ _ =>
        confined_pure trivial
  · refine .get_bind fun _ _ _ => ?_
    split
    · exact confined_pure trivial
    · exact .bind (confined_orFail _ _) fun tile _ => .bind (confined_orFail _ _) fun id _ =>
        .bind (confined_update (hp.inside_of_findIn (.inl rfl) hlock) _) fun _ _ =>
        confined_pure trivial

/-- Looking for a free lock identifier edits nothing. -/
theorem confined_nextFreeLockId (device : OpId) (tile : Tile) :
    Confined c A (nextFreeLockId device tile) anything :=
  .get_bind fun _ _ _ => (confined_orFail _ _).mono (fun _ h => h) (fun _ h => h) fun _ _ => trivial

/-- A lock use is localized inside the device. -/
theorem confined_localizeUse {use : OpId} (huse : c.inside use) (tile : Tile) :
    Confined c A (localizeUse tile use) anything :=
  .get_bind fun _ _ _ => .bind (confined_orFail _ _) fun _ _ =>
    .bind (confined_orFail _ _) fun _ _ => .bind (confined_orFail _ _) fun _ _ =>
    .bind (confined_orFail _ _) fun _ _ => .bind (confined_ensure _ _) fun _ _ =>
    confined_update huse _

/-- Locks are localized inside the device. -/
theorem confined_localizeLocks : Confined c A (localizeLocks c.device) anything :=
  confined_forEach (.inl rfl) (fun _ _ hcore => .get_bind fun _ _ _ =>
    .bind (confined_orFail _ _) fun tile _ =>
      confined_forEach (.inr hcore) (fun _ _ huse => confined_localizeUse huse tile) _) _

/-- Whether all buffers of some groups are inside. -/
def GroupsInside (c : Enclosure) (groups : List TileBuffers) : Prop :=
  ∀ b, (∃ g ∈ groups, b ∈ g.buffers) → c.inside b

/-- Grouping a buffer edits nothing, and the groups hold buffers inside the device. -/
theorem confined_groupBuffer {groups : List TileBuffers} {buffer : OpId}
    (hgroups : GroupsInside c groups) (hbuffer : c.inside buffer) :
    Confined c A (groupBuffer groups buffer) (GroupsInside c) :=
  .get_bind fun _ _ _ => .bind (confined_orFail _ _) fun _ _ => confined_pure fun b hb =>
    (mem_insertBuffer.1 hb).elim (fun heq => heq ▸ hbuffer) (hgroups b)

/-- The buffers of a tile are laid out inside the device. -/
theorem confined_layOutTile (model : DeviceModel) (coreTiles : List Tile) {g : TileBuffers}
    (hg : ∀ b ∈ g.buffers, c.inside b) : Confined c A (layOutTile model coreTiles g) anything := by
  refine .bind (ConfinedBut.foldlM (Q := anything) trivial fun buffer _ next _ => ?_)
    fun next _ => .bind (ConfinedBut.foldlM (Q := anything) trivial fun buffer hbuffer next _ => ?_)
      fun _ _ => confined_pure trivial
  · refine .get_bind fun p _ _ => .bind (confined_orFail _ _) fun size _ =>
      .bind (confined_ensure _ _) fun _ _ => ?_
    split
    · exact confined_pure trivial
    · exact .bind (confined_ensure _ _) fun _ _ => .bind (confined_orFail _ _) fun _ _ =>
        confined_pure trivial
  · refine .get_bind fun p _ _ => ?_
    split
    · exact .bind (confined_orFail _ _) fun _ _ => .bind (confined_orFail _ _) fun _ _ =>
        .bind (confined_ensure _ _) fun _ _ => .bind (confined_update (hg buffer hbuffer) _)
        fun _ _ => confined_pure trivial
    · exact confined_pure trivial

/-- Addresses are assigned inside the device. -/
theorem confined_assignBufferAddresses :
    Confined c A (assignBufferAddresses c.device) anything :=
  .get_bind fun _ hp _ => .bind (.forM fun _ _ => confined_ensure _ _) fun _ _ =>
    .bind (.foldlM (Q := GroupsInside c) (fun _ h => nomatch h) fun _ hbuffer _ hgroups =>
      confined_groupBuffer hgroups (hp.inside_of_findIn (.inl rfl) hbuffer)) fun _ hgroups =>
    .forM fun g hg => confined_layOutTile _ _ fun b hb => hgroups b ⟨g, hg, hb⟩

/-- Memory spaces are dropped inside the device. -/
theorem confined_dropMemorySpaces : Confined c A (dropMemorySpaces c.device) anything :=
  confined_forEach (.inl rfl) (fun _ _ hbuffer => confined_update hbuffer _) _

/-! ### Transfers -/

/-- A transfer is lowered inside the device, and only it is erased. -/
theorem confined_lowerTransfer {transfer : OpId} (hin : c.inside transfer) :
    ConfinedBut c (· = transfer) (· = transfer) (lowerTransfer device transfer) anything := by
  rw [lowerTransfer]
  refine .get_bind fun p hp hlinked => ?_
  have hput (op : Operation) : Confined c p.Linked (Action.insertBefore transfer op) c.inside :=
    confined_insertBefore (hlinked transfer rfl) hin op
  refine .bind (confined_orFail _ _) fun _ _ => .bind (confined_orFail _ _) fun _ _ =>
    .bind (confined_ensure _ _) fun _ _ => .bind (confined_orFail _ _) fun _ _ =>
    .bind (confined_orFail _ _) fun _ _ => ?_
  exact .bind (hput _) fun _ _ => .bind (hput _) fun _ _ => .bind (hput _) fun _ _ =>
    confined_erase (hlinked transfer rfl) hin

/-! ### Object FIFOs -/

/-- The core on a tile is inside the device. -/
theorem confined_coreFor (tile : String) : Confined c A (coreFor c.device tile) c.inside := by
  refine .get_bind fun p hp _ => ?_
  split
  · rename_i core hcore
    exact confined_pure (hp.inside_of_findIn (.inl rfl) (List.mem_of_find?_eq_some hcore))
  · exact .bind (confined_append (.inl rfl) _) fun core hcore =>
      .bind (confined_append (.inr hcore) _) fun _ _ => confined_pure hcore

/-- The terminator of a core is a child of it, and linked. -/
theorem confined_appendToCore (hcore : c.inside core) (op : Operation) :
    Confined c A (appendToCore core op) c.inside := by
  refine .get_bind fun p hp _ => ?_
  split
  · rename_i last hlast
    have hchild := List.mem_of_getLast? hlast
    split
    · exact confined_insertBefore
        (hp.tree.linked_of_walkIn (Program.mem_walkIn_of_mem_children hchild))
        ((hp.links core last hchild).2 (.inr hcore)) op
    · exact confined_append (.inr hcore) op
  · exact confined_append (.inr hcore) op

/-- A process is registered inside the device, and only its registration is erased. -/
theorem confined_registerProcess {registration : OpId} (hin : c.inside registration) :
    ConfinedBut c (· = registration) (· = registration)
      (registerProcess c.device registration) anything :=
  .get_bind fun _ _ hlinked => .bind (confined_orFail _ _) fun _ _ =>
    .bind (confined_orFail _ _) fun _ _ => .bind (confined_orFail _ _) fun _ _ =>
    .bind (confined_orFail _ _) fun _ _ => .bind (confined_orFail _ _) fun _ _ =>
    .bind (confined_coreFor _) fun _ hcore => .bind (confined_appendToCore hcore _) fun _ hloop =>
    .bind (confined_append (.inr hloop) _) fun _ _ =>
    .bind (confined_append (.inr hloop) _) fun _ _ =>
    .bind (confined_append (.inr hloop) _) fun _ _ => confined_erase (hlinked registration rfl) hin

/-- Reading what a FIFO asks for edits nothing. -/
theorem confined_readFifo (fifo : OpId) : Confined c A (readFifo fifo) anything :=
  .get_bind fun _ _ _ => .bind (confined_orFail _ _) fun _ _ =>
    .bind (confined_ensure _ _) fun _ _ =>
    .bind (confined_orFail _ _) fun _ _ => .bind (confined_orFail _ _) fun _ _ =>
    .bind (confined_orFail _ _) fun _ _ => .bind (confined_orFail _ _) fun _ _ =>
    .bind (confined_orFail _ _) fun _ _ => confined_pure trivial

/-- The buffers of a FIFO are put inside the device. -/
theorem confined_insertSlot (hA : A fifo) (hfifo : c.inside fifo) (shape : FifoShape) (i : Nat) :
    Confined c A (insertSlot fifo shape i) anything :=
  .get_bind fun _ _ hlinked => confined_insertBefore_pure (hlinked fifo hA) hfifo _

/-- The locks of a FIFO are put inside the device. -/
theorem confined_insertLock (hA : A fifo) (hfifo : c.inside fifo) (shape : FifoShape)
    (suffix : String) (initial : Int) :
    Confined c A (insertLock device fifo shape suffix initial) anything := by
  rw [insertLock]
  exact .bind (confined_nextFreeLockId _ _) fun _ _ => .get_bind fun _ _ hlinked =>
    confined_insertBefore_pure (hlinked fifo hA) hfifo _

/-- The allocations of a FIFO are put inside the device. -/
theorem confined_insertAllocation (hA : A fifo) (hfifo : c.inside fifo) (name direction : String)
    (tile : Tile) (channel : Nat) :
    Confined c A (insertAllocation device fifo name direction tile channel) anything := by
  refine .get_bind fun _ _ hlinked => ?_
  split
  · exact confined_insertBefore_pure (hlinked fifo hA) hfifo _
  · exact confined_pure trivial

/-- The stream of a FIFO is put inside the device. -/
theorem confined_insertStream (hA : A fifo) (hfifo : c.inside fifo) (shape : FifoShape) :
    Confined c A (insertStream device fifo shape) anything := by
  rw [insertStream]
  split
  · exact .get_bind fun _ _ hlinked =>
      have hA := hlinked fifo hA
      .bind (confined_insertBefore hA hfifo _) fun _ _ =>
        .bind (confined_insertAllocation hA hfifo _ _ _ _) fun _ _ =>
          confined_insertAllocation hA hfifo _ _ _ _
  · exact confined_pure trivial

/-- A FIFO is lowered inside the device, and only it is erased. -/
theorem confined_lowerObjectFifo (hfifo : c.inside fifo) :
    ConfinedBut c (· = fifo) (· = fifo) (lowerObjectFifo c.device fifo) anything := by
  rw [lowerObjectFifo]
  refine .bind (confined_readFifo _) fun shape _ =>
    .bind (.forM fun i _ => confined_insertSlot (A := (· = fifo)) rfl hfifo shape i) fun _ _ => ?_
  refine .bind (confined_insertLock (A := (· = fifo)) rfl hfifo _ _ _) fun _ _ =>
    .bind (confined_insertLock (A := (· = fifo)) rfl hfifo _ _ _) fun _ _ => ?_
  exact .bind (confined_insertStream (A := (· = fifo)) rfl hfifo _) fun _ _ =>
    .get_bind fun _ hp hlinked =>
    .bind (.forM fun id hid => confined_update (hp.inside_of_walkIn (.inl rfl) hid) _) fun _ _ =>
      confined_erase (hlinked fifo rfl) hfifo

/-! ### Broadcast and multicast -/

/-- Reading a source edits nothing. -/
theorem confined_sourceOperands (id : OpId) : Confined c A (sourceOperands id) anything :=
  .get_bind fun _ _ _ => .bind (confined_ensure _ _) fun _ _ => confined_pure trivial

/-- The packet flow of a group is put inside the device. -/
theorem confined_insertPacketFlow (hA : A id) (hid : c.inside id) (source : List Attribute)
    (group : OpId) : Confined c A (insertPacketFlow id source group) anything :=
  .get_bind fun _ _ hlinked => .bind (confined_orFail _ _) fun _ _ =>
    .bind (confined_insertBefore (hlinked id hA) hid _) fun _ hflow =>
    .bind (confined_append (.inr hflow) _) fun _ _ =>
    .forM fun _ _ => .bind (confined_append (.inr hflow) _) fun _ _ => confined_pure trivial

/-- A broadcast is lowered inside the device, and only it is erased. -/
theorem confined_lowerBroadcast (hid : c.inside id) :
    ConfinedBut c (· = id) (· = id) (lowerBroadcast id) anything :=
  .bind (confined_sourceOperands _) fun source _ => .get_bind fun _ _ hlinked =>
    .bind (.forM fun group _ => confined_insertPacketFlow (hlinked id rfl) hid source group)
      fun _ _ => confined_erase (hlinked id rfl) hid

/-- A multicast is lowered inside the device, and only it is erased. -/
theorem confined_lowerMulticast (hid : c.inside id) :
    ConfinedBut c (· = id) (· = id) (lowerMulticast id) anything :=
  .bind (confined_sourceOperands _) fun _ _ => .get_bind fun _ _ hlinked =>
    .bind (.forM fun _ _ => confined_insertBefore_pure (hlinked id rfl) hid _) fun _ _ =>
      confined_erase (hlinked id rfl) hid

/-! ### Routing -/

/-- Reading an endpoint edits nothing. -/
theorem confined_readEndpoint (op : Operation) (first : Nat) :
    Confined c A (readEndpoint op first) anything :=
  .get_bind fun _ _ _ => .bind (confined_orFail _ _) fun _ _ =>
    .bind (confined_orFail _ _) fun _ _ =>
    .bind (confined_orFail _ _) fun _ _ => .bind (confined_orFail _ _) fun _ _ =>
    confined_pure trivial

/-- The tile for a value is inside the device. -/
theorem confined_tileValue (tile : Tile) : Confined c A (tileValue c.device tile) anything := by
  refine .get_bind fun p _ _ => ?_
  split
  · exact confined_pure trivial
  · exact .bind (confined_prepend (.inl rfl) _) fun _ _ => confined_pure trivial

/-- The switchbox on a tile is inside the device. -/
theorem confined_switchboxFor (tile : Tile) :
    Confined c A (switchboxFor c.device tile) c.inside := by
  refine .get_bind fun p hp _ => ?_
  split
  · rename_i box hbox
    exact confined_pure (hp.inside_of_findIn (.inl rfl) (List.mem_of_find?_eq_some hbox))
  · exact .bind (confined_tileValue _) fun _ _ => confined_append (.inl rfl) _

/-- A rule is added inside the device. -/
theorem confined_addOnce {box : OpId} (hbox : c.inside box) (rule : Operation) :
    Confined c A (addOnce box rule) anything := by
  refine .get_bind fun p _ _ => ?_
  dsimp only
  split
  · exact confined_pure trivial
  · exact .bind (confined_append (.inr hbox) _) fun _ _ => confined_pure trivial

/-- The rules along a path are laid inside the device. -/
theorem confined_layPackets (id : Int) (output input : Channel) (path : List Tile) :
    Confined c A (layPackets c.device id output input path) anything := by
  induction path generalizing input with
  | nil => exact confined_pure trivial
  | cons tile rest ih =>
      cases rest with
      | nil => exact .bind (confined_switchboxFor _) fun _ hbox => confined_addOnce hbox _
      | cons next rest =>
          exact .bind (confined_switchboxFor _) fun _ hbox =>
            .bind (confined_addOnce hbox _) fun _ _ => ih _

/-- A packet flow is routed inside the device, and only it is erased. -/
theorem confined_routePacketFlow {flow : OpId} (hflow : c.inside flow) :
    ConfinedBut c (· = flow) (· = flow) (routePacketFlow c.device flow) anything := by
  refine .get_bind fun p _ hlinked => .bind (confined_orFail _ _) fun id _ => ?_
  dsimp only
  split
  · exact .bind (confined_readEndpoint _ _) fun source _ => .bind (confined_ensure _ _) fun _ _ =>
      .bind (.mapM fun _ _ => confined_readEndpoint _ _) fun _ _ =>
      .bind (confined_ensure _ _) fun _ _ => .bind (.forM fun _ _ =>
        .bind (confined_ensure _ _) fun _ _ => confined_layPackets _ _ _ _) fun _ _ =>
      confined_erase (hlinked flow rfl) hflow
  · exact confined_throw_bind _ _

/-- The connections along a path are laid inside the device. -/
theorem confined_layCircuit (output input : Channel) (path : List Tile) (l : ChannelLedger) :
    Confined c A (layCircuit c.device output l input path) anything := by
  induction path generalizing l input with
  | nil => exact confined_pure trivial
  | cons tile rest ih =>
      cases rest with
      | nil =>
          exact .bind (confined_switchboxFor _) fun _ hbox =>
            .bind (confined_append (.inr hbox) _) fun _ _ => confined_pure trivial
      | cons next rest =>
          exact .bind (confined_orFail _ _) fun _ _ => .bind (confined_switchboxFor _) fun _ hbox =>
            .bind (confined_append (.inr hbox) _) fun _ _ => ih _ _

/-- A flow is routed inside the device, and only it is erased. -/
theorem confined_routeCircuitFlow {flow : OpId} (hflow : c.inside flow) (l : ChannelLedger) :
    ConfinedBut c (· = flow) (· = flow) (routeCircuitFlow c.device l flow) anything :=
  .get_bind fun _ _ hlinked => .bind (confined_readEndpoint _ _) fun _ _ =>
    .bind (confined_readEndpoint _ _) fun _ _ => .bind (confined_ensure _ _) fun _ _ =>
    .bind (confined_ensure _ _) fun _ _ => .bind (confined_layCircuit _ _ _ _) fun _ _ =>
    .bind_after (confined_erase (hlinked flow rfl) hflow) fun _ _ => confined_pure trivial

/-- The flows are routed inside the device. -/
theorem confined_routeCircuitFlows :
    ConfinedBut c A anything (TileFlow.routeCircuitFlows c.device) anything :=
  .get_bind fun _ hp _ => .bind_after ((ConfinedBut.foldlM_erasing (hp.tree.nodup_findIn _ _)
    (fun _ hid => hp.tree.linked_of_walkIn (List.mem_filter.1 hid).1)
    (fun _ hflow l => confined_routeCircuitFlow (hp.inside_of_findIn (.inl rfl) hflow) l) _).mono
      (fun _ h => h) (fun _ _ => trivial) fun _ h => h) fun _ _ => confined_pure trivial

/-! ### Stages -/

namespace Stage

/-- What a stage does to one device, if it works on devices. -/
def deviceAction? : Stage → Option (OpId → Action Unit)
  | assignLockIds => some TileFlow.assignLockIds
  | registerObjectFifos => some TileFlow.registerProcesses
  | lowerObjectFifos => some TileFlow.lowerObjectFifos
  | broadcastPackets => some TileFlow.lowerBroadcasts
  | routePacketFlows => some TileFlow.routePacketFlows
  | lowerMulticast => some TileFlow.lowerMulticasts
  | assignBufferAddresses => some TileFlow.assignBufferAddresses
  | routeCircuitFlows => some TileFlow.routeCircuitFlows
  | lowerTransfers => some TileFlow.lowerTransfers
  | localizeLocks => some TileFlow.localizeLocks
  | normalizeAddressSpaces => some TileFlow.dropMemorySpaces
  | _ => none

/-- A stage on devices applies its action to each of them. -/
theorem action_of_deviceAction? {s : Stage} {f : OpId → Action Unit}
    (h : s.deviceAction? = some f) : s.action = onEachDevice f := by
  cases s <;> cases h <;> rfl

/-- What a stage does to one device is confined to what is below the device. -/
theorem confined_deviceAction {s : Stage} {f : OpId → Action Unit} (h : s.deviceAction? = some f)
    (c : Enclosure) (A : OpId → Prop) : ConfinedBut c A anything (f c.device) anything := by
  have hmono {x : Action Unit} (hx : Confined c A x anything) : ConfinedBut c A anything
      x anything :=
    hx.mono (fun _ h => h) (fun _ _ => trivial) fun _ h => h
  have hself : c.device = c.device ∨ c.inside c.device := .inl rfl
  cases s with
  | assignLockIds => cases h; exact hmono confined_assignLockIds
  | registerObjectFifos =>
      cases h
      exact confined_forEach_erasing hself (fun _ hid => confined_registerProcess hid) _
  | lowerObjectFifos =>
      cases h
      exact confined_forEach_erasing hself (fun _ hid => confined_lowerObjectFifo hid) _
  | broadcastPackets =>
      cases h
      exact confined_forEach_erasing hself (fun _ hid => confined_lowerBroadcast hid) _
  | routePacketFlows =>
      cases h
      exact confined_forEach_erasing hself (fun _ hid => confined_routePacketFlow hid) _
  | lowerMulticast =>
      cases h
      exact confined_forEach_erasing hself (fun _ hid => confined_lowerMulticast hid) _
  | assignBufferAddresses => cases h; exact hmono confined_assignBufferAddresses
  | routeCircuitFlows => cases h; exact confined_routeCircuitFlows
  | lowerTransfers =>
      cases h
      exact confined_forEach_erasing hself (fun _ hid => confined_lowerTransfer hid) _
  | localizeLocks => cases h; exact hmono confined_localizeLocks
  | normalizeAddressSpaces => cases h; exact hmono confined_dropMemorySpaces
  | _ => cases h

end Stage

/-- Whether a program is another one apart from what is below a device: the top of the body, the
attributes, the device itself apart from the region that it owns, and everything that was there
before and is not below the device, with its links and whether it is erased. -/
structure Program.SameOutside (p : Program) (device : OpId) (q : Program) : Prop where
  roots : q.body.roots = p.body.roots
  attributes : q.attributes = p.attributes
  header : (p.op device).SameHeader (q.op device)
  slot : ∀ id < p.slots.size, id ≠ device → id ∉ p.walkIn device → q.slots[id]? = p.slots[id]?
  parent : ∀ id < p.slots.size, id ≠ device → id ∉ p.walkIn device → q.parent? id = p.parent? id
  children : ∀ id < p.slots.size, id ≠ device → id ∉ p.walkIn device →
    q.children (some id) = p.children (some id)

/-- **Stages on devices touch one device at a time.** Every stage that works on devices does the
same to each of them in turn, and what it does to one changes nothing outside of it, whether it
succeeds or gives up. -/
theorem Stage.device_frame {s : Stage} (hs : s ∈ builtin) (hscope : s.scope = .device) :
    ∃ f, s.deviceAction? = some f ∧ s.action = onEachDevice f ∧
      ∀ (p q : Program) (device : OpId) (result : Except StageError Unit), p.Tree →
        device ∈ p.walk → runOn (f device) p = (result, q) → p.SameOutside device q := by
  obtain ⟨f, hf⟩ : ∃ f, s.deviceAction? = some f := by
    cases s with
    | custom => simp [builtin] at hs
    | _ => first | exact ⟨_, rfl⟩ | cases hscope
  refine ⟨f, hf, action_of_deviceAction? hf, fun p q device result hp hdevice hrun => ?_⟩
  have hspares := (confined_deviceAction hf _ nothing p (Enclosure.encloses_below hp hdevice)
    fun _ hid => hid.elim).1
  rw [hrun] at hspares
  have houtside : ∀ id < p.slots.size, id ∉ p.walkIn device →
      ¬ (id ∈ p.walkIn device ∨ p.slots.size ≤ id) := fun id hlt hid =>
    not_or.2 ⟨hid, Nat.not_le.2 hlt⟩
  exact ⟨hspares.roots, hspares.attributes, hspares.device,
    fun id hlt hne hid => hspares.slot id (houtside id hlt hid) hne,
    fun id hlt hne hid => hspares.parent id (houtside id hlt hid),
    fun id hlt hne hid => hspares.children id (houtside id hlt hid) hne⟩

/-- A registered process and one on an unknown FIFO, next to another device. -/
def halfRegisteredSource : String :=
  "aie.device(ipu) \x7b %a = aie.tile(0, 2) %b = aie.tile(0, 3)\n" ++
  "aie.objectfifo(%a, %b) \x7bsym_name = of\x7d\n" ++
  "aie.objectfifo.register_process(@of, consume, @work)\n" ++
  "aie.objectfifo.register_process(@lost, consume, @work) \x7d\n" ++
  "aie.device(ipu) \x7b aie.objectfifo.register_process(@of, consume, @rest) \x7d"

/-- The second registration fails when the first one is a loop in a new core already, and the other
device is not touched. -/
theorem Stage.device_frame_halfRegistered : ∃ p q : Program,
    Source.parse halfRegisteredSource = .ok p ∧ registerObjectFifos ∈ builtin ∧
    registerObjectFifos.scope = .device ∧ p.devices = [0, 6] ∧ 0 ∈ p.walk ∧
    runOn (registerProcesses 0) p = (.error (.unknownFifo "lost"), q) ∧
    p.children (some 0) = [1, 2, 3, 4, 5] ∧ q.children (some 0) = [1, 2, 3, 5, 8] ∧
    p.SameOutside 0 q := by
  have hsource : ∃ p, Source.parse halfRegisteredSource = .ok p ∧ p.devices = [0, 6] ∧
      0 ∈ p.walk ∧ (runOn (registerProcesses 0) p).1 = .error (.unknownFifo "lost") ∧
      p.children (some 0) = [1, 2, 3, 4, 5] ∧
      (runOn (registerProcesses 0) p).2.children (some 0) = [1, 2, 3, 5, 8] :=
    exists_ok_of_any (by decide +kernel)
  obtain ⟨p, hparse, hdevices, hmem, hfails, hbefore, hafter⟩ := hsource
  have hrun : runOn (registerProcesses 0) p =
    (.error (.unknownFifo "lost"), (runOn (registerProcesses 0) p).2) := Prod.ext hfails rfl
  have hbuiltin : registerObjectFifos ∈ builtin := by simp [builtin]
  obtain ⟨f, hf, -, hframe⟩ := device_frame hbuiltin rfl
  cases hf
  exact ⟨p, _, hparse, hbuiltin, rfl, hdevices, hmem, hrun, hbefore, hafter,
    hframe p _ 0 _ (Source.orderly_of_parse hparse).tree hmem hrun⟩

/-! ### The turn of a device -/

/-- Whether everything below an operation is as it was. -/
structure Program.SameBelow (p : Program) (a : OpId) (q : Program) : Prop where
  evolves : p.Evolves q
  walkIn : ∀ id, id ∈ q.walkIn a ↔ id ∈ p.walkIn a
  op : ∀ id ∈ p.walkIn a, q.op id = p.op id

/-- What is below an operation stays when nothing happens. -/
theorem Program.SameBelow.refl {p : Program} (hp : p.Sound) (a : OpId) : p.SameBelow a p :=
  ⟨.refl hp, fun _ => Iff.rfl, fun _ _ => rfl⟩

/-- What is below an operation and stays twice stays over both steps. -/
theorem Program.SameBelow.trans {p q r : Program} (h : p.SameBelow a q) (h' : q.SameBelow a r) :
    p.SameBelow a r where
  evolves := h.evolves.trans h'.evolves
  walkIn id := (h'.walkIn id).trans (h.walkIn id)
  op id hid := (h'.op id ((h.walkIn id).2 hid)).trans (h.op id hid)

/-- What is below an operation that is neither enclosed nor the enclosing one is as it was. -/
theorem Enclosure.Spares.sameBelow {gone : OpId → Prop} {p q : Program} (h : c.Spares gone p q)
    (hp : c.Encloses p) (hev : p.Evolves q) (hroot : c.device ∈ p.body.roots) (ha : ¬ c.inside a)
    (hne : a ≠ c.device) : p.SameBelow a q := by
  have hchildren : ∀ b, ¬ c.inside b ∧ b ≠ c.device → q.children (some b) = p.children (some b) :=
    fun b hb => h.children b hb.1 hb.2
  have hout : ∀ b, b = a ∨ b ∈ p.walkIn a → ¬ c.inside b ∧ b ≠ c.device := by
    rintro b (rfl | hb)
    · exact ⟨ha, hne⟩
    · exact hp.outside_of_walkIn hroot ha hne hb
  have hout' : ∀ b, b = a ∨ b ∈ q.walkIn a → ¬ c.inside b ∧ b ≠ c.device := by
    rintro b (rfl | hb)
    · exact ⟨ha, hne⟩
    · exact h.encloses.outside_of_walkIn (h.roots ▸ hroot) ha hne hb
  refine ⟨hev, fun id => ⟨h.encloses.tree.walkIn_subset hp.tree (fun b hb x hx => ?_) id,
    hp.tree.walkIn_subset h.encloses.tree (fun b hb x hx => ?_) id⟩, fun id hid => ?_⟩
  · rwa [← hchildren b (hout' b hb)]
  · rwa [hchildren b (hout b hb)]
  · obtain ⟨hin, hdevice⟩ := hout id (.inr hid)
    exact Program.op_congr (h.slot id hin hdevice)

namespace Stage

variable {s : Stage} {f : OpId → Action Unit} {p q : Program} {other : OpId} {rule : EditRule}

/-- What a stage does to one device leaves everything below another one as it was. -/
theorem deviceAction_elsewhere (hf : s.deviceAction? = some f) (hp : p.Tree)
    (hother : other ∈ p.devices) (hdevice : device ∈ p.devices) (hne : device ≠ other)
    (hev : p.Evolves q) (h : runOn (f other) p = (.ok (), q)) : p.SameBelow device q := by
  have hencloses := Enclosure.encloses_below hp (Program.mem_walk_of_mem_devices hother)
  have hspares := (confined_deviceAction hf _ nothing p hencloses fun _ hid => hid.elim).1
  rw [h] at hspares
  refine hspares.sameBelow hencloses hev (Program.mem_devices.1 hother).1 ?_ hne
  rintro (hin | hle)
  · exact Program.notMem_walkIn_of_root hp.sound.toWellFormed (Program.mem_devices.1 hdevice).1
      (Program.mem_walk_of_mem_devices hother) hin
  · exact absurd hle (Nat.not_le.2
      (hp.sound.created device (Program.mem_walk_of_mem_devices hdevice)))

/-- The turn of a device in the run of a stage, with the programs before it and after it. What is
below the device waits for it, and stays as it is from then on. -/
structure Turn (rule : EditRule) (f : OpId → Action Unit) (device : OpId) (p q : Program) where
  before : Program
  after : Program
  before_sound : before.Sound
  after_sound : after.Sound
  mem_before : device ∈ before.devices
  mem_after : device ∈ after.devices
  mem_end : device ∈ q.devices
  edits : p.Edits rule before
  waits : p.SameBelow device before
  run : runOn (f device) before = (.ok (), after)
  own : before.Edits rule after
  rest : after.Edits rule q
  stays : after.SameBelow device q

/-- A stage on devices has one turn in which it changes what is below a device. -/
theorem onEachDevice_turn (hf : s.deviceAction? = some f) (hrule : rule.SparesDevices)
    (hp : p.Tree) (hdevice : device ∈ p.devices) (h : runOn (onEachDevice f) p = (.ok (), q))
    (edits : ∀ other r t, r.Sound → p.Edits rule r → other ∈ r.devices →
      runOn (f other) r = (.ok (), t) → r.Edits rule t) :
    Nonempty (Turn rule f device p q) := by
  rw [onEachDevice, get_bind_ok] at h
  obtain ⟨l₁, l₂, r, t, hne, hbefore, hown, hafter⟩ :=
    forM_split (hp.distinct_body.nodup_roots.filter _) hdevice h
  have hothers : ∀ l : List OpId, (∀ other ∈ l, other ∈ p.devices ∧ other ≠ device) → ∀ u v,
      p.Edits rule u → runOn (l.forM f) u = (.ok (), v) →
      u.Edits rule v ∧ u.SameBelow device v := by
    intro l hl u v hu hrun
    have htree := hu.tree hp
    refine forM_induction (I := fun w => u.Edits rule w ∧ u.SameBelow device w) hrun
      ⟨.refl, .refl htree.sound device⟩ fun other hmem w x hw hstep => ?_
    obtain ⟨hother, hne⟩ := hl other hmem
    have hpw := hu.trans hw.1
    have hdevices : ∀ d ∈ p.devices, d ∈ w.devices := fun d hd =>
      (hpw.mem_devices hrule hp.sound).2 hd
    have hwx := edits other w x (hw.1.sound htree.sound) hpw (hdevices other hother) hstep
    exact ⟨hw.1.trans hwx, hw.2.trans (deviceAction_elsewhere hf (hpw.tree hp)
      (hdevices other hother) (hdevices device hdevice) (Ne.symm hne)
      (hwx.evolves (hw.1.sound htree.sound)) hstep)⟩
  obtain ⟨hpr, hsame⟩ := hothers l₁ (fun d hd => hne d (List.mem_append_left _ hd)) p r .refl
    hbefore
  have hr := (hpr.mem_devices hrule hp.sound).2 hdevice
  have hrt := edits device r t (hpr.sound hp.sound) hpr hr hown
  have hpt := hpr.trans hrt
  obtain ⟨htq, hsame'⟩ := hothers l₂ (fun d hd => hne d (List.mem_append_right _ hd)) t q hpt hafter
  exact ⟨r, t, hpr.sound hp.sound, hpt.sound hp.sound, hr,
    (hpt.mem_devices hrule hp.sound).2 hdevice,
    ((hpt.trans htq).mem_devices hrule hp.sound).2 hdevice, hpr, hsame, hown, hrt, htq, hsame'⟩

end Stage

end TileFlow
