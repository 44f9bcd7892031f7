import TileFlow.Proofs.Core.Function
import TileFlow.Proofs.Fifo.Channel
import TileFlow.Proofs.Stage.CanonicalShape
import TileFlow.Proofs.Stage.Pipeline
import TileFlow.Proofs.Stage.Safety

/-!
# Stages keep programs orderly

Every stage of the compiler is safe, so that a source stays a tree with unique values whatever
stages run on it, in any order, and whether they succeed or give up.

## Main definitions

* `Stage.runEach`: the program that stages leave.

## Main results

* `Stage.safe_action`: every stage of the compiler is safe.
* `Stage.runEach_orderly`: what stages make of an orderly program, whether they succeed or give up.
-/

namespace TileFlow

open TileFlow.Action

variable {n : Nat}

/-- A loop over the operations with a name. -/
theorem safe_forEach {f : OpId → Action Unit} (hf : ∀ m id, n ≤ m → id < m → Safe m (f id))
    (a : OpId) (name : String) : Safe n (do ((← get).findIn a name).forM f) :=
  .get_bind fun _ hp hn => .forM fun id hid => hf _ id hn (hp.lt_size_of_findIn hid)

/-- A loop over the operations of the body. -/
theorem safe_forWalk {f : OpId → Action Unit} (hf : ∀ m id, id < m → Safe m (f id)) :
    Safe n (do (← get).walk.forM f) :=
  .get_bind fun _ hp _ => .forM fun id hid => hf _ id (hp.sound.created id hid)

/-- A loop over the operations at the top. -/
theorem safe_forRoots {f : OpId → Action Unit} (hf : ∀ m id, id < m → Safe m (f id)) :
    Safe n (do (← get).body.roots.forM f) :=
  .get_bind fun _ hp _ => .forM fun id hid =>
    hf _ id (hp.sound.created id (Program.mem_walk_of_mem_roots hid))

/-! ### Shape -/

/-- A loop that changes operations, as a fold. -/
theorem runOn_forM_update (f : Operation → Operation) (l : List OpId) (p : Program) :
    runOn (l.forM fun id => update id f) p = (.ok (), l.foldl (fun q id => q.modify id f) p) := by
  induction l generalizing p with
  | nil => rfl
  | cons id l ih => exact ih (p.modify id f)

/-- Renaming affine operations is safe. -/
theorem safe_lowerAffine : Safe n lowerAffine := by
  have hrenamed (op : Operation) : (op.renamed affineNames).result = op.result ∧
      (op.renamed affineNames).hasRegion = op.hasRegion := by
    rcases op.renamed_affine with h | ⟨_, _, -, -, h⟩ <;> rw [h] <;> exact ⟨rfl, rfl⟩
  refine .bind (fun p hp hn => ?_) fun _ => .get_bind fun p _ _ => ?_
  · exact (Safe.forM (fun id _ => safe_update id hrenamed) p hp hn).congr
      (runOn_forM_update _ p.walk p).symm
  · split
    · exact safe_throw _
    · exact safe_pure _

/-- Wrapping a program in a device is safe. -/
theorem safe_wrapInDevice : Safe n wrapInDevice := fun p hp _ => by
  rw [wrapInDevice]
  refine .get_bind hp ?_
  split
  · have hinsert : SafeAt p (modifyGet (·.insertAt none 0 defaultDevice) : Action OpId) :=
      safeAt_insert ⟨none, 0, rfl⟩ rfl hp (Program.fresh_of_none rfl) fun hcomplete =>
        have hplace := Program.Complete.isPlace_none p
        ⟨hcomplete.insertAt hplace (Nat.zero_le _) _,
          hcomplete.mirrors_insertAt hplace (Nat.zero_le _) _⟩
    refine hinsert.bind fun device q h hq _ => ?_
    rw [runOn_modifyGet, Prod.mk.injEq, Except.ok.injEq, Program.fst_insertAt] at h
    obtain ⟨rfl, rfl⟩ := h
    refine safeAt_moveAll hq ?_ fun id hid => ⟨?_, ?_⟩
    · rw [Program.body_insertAt_none]
      exact Forest.mem_roots_insertAt.2 (.inl rfl)
    · exact Program.mem_walk_insertAt_none.2 (.inr (Program.mem_walk_of_mem_roots hid))
    · exact Nat.ne_of_lt (hp.sound.created id (Program.mem_walk_of_mem_roots hid))
  · exact safe_pure () p hp (Nat.zero_le _)

/-- Lowering one structured operation is safe. -/
theorem safe_lowerControl (id : OpId) : Safe n (lowerControl id) := by
  refine .get_bind fun p _ _ => ?_
  dsimp only
  split
  · exact .bind (safe_ensure _ _) fun _ => safe_update _ fun _ => ⟨rfl, rfl⟩
  · split
    · exact safe_update _ fun _ => ⟨rfl, rfl⟩
    · exact safe_pure _

/-- Lowering structured operations is safe. -/
theorem safe_lowerStructured : Safe n lowerStructured :=
  .get_bind fun _ hp _ => .bind (.forM fun id hid =>
      safe_erase (hp.sound.created id (List.mem_filter.1 hid).1))
    fun _ => safe_forWalk fun _ id _ => safe_lowerControl id

/-! ### Locks and buffers -/

/-- Assigning lock identifiers is safe. -/
theorem safe_assignLockIds (device : OpId) : Safe n (assignLockIds device) := by
  refine .get_bind fun p _ _ => .bind (.foldlM (fun lock _ ledger => ?_) _) fun ledger =>
    .bind (.foldlM (fun lock _ ledger => ?_) _) fun _ => safe_pure _
  · refine .get_bind fun p _ _ => .bind (safe_orFail _ _) fun tile => ?_
    split
    · exact safe_pure _
    · exact .bind (safe_ensure _ _) fun _ => .bind (safe_ensure _ _) fun _ => safe_pure _
  · refine .get_bind fun p _ _ => ?_
    split
    · exact safe_pure _
    · exact .bind (safe_orFail _ _) fun tile => .bind (safe_orFail _ _) fun id =>
        .bind (safe_update _ fun _ => ⟨rfl, rfl⟩) fun _ => safe_pure _

/-- Looking for a free lock identifier is safe. -/
theorem safe_nextFreeLockId (device : OpId) (tile : Tile) : Safe n (nextFreeLockId device tile) :=
  .get_bind fun _ _ _ => safe_orFail _ _

/-- Localizing a lock use is safe. -/
theorem safe_localizeUse (tile : Tile) (use : OpId) : Safe n (localizeUse tile use) :=
  .get_bind fun _ _ _ => .bind (safe_orFail _ _) fun _ => .bind (safe_orFail _ _) fun _ =>
    .bind (safe_orFail _ _) fun _ => .bind (safe_orFail _ _) fun _ =>
    .bind (safe_ensure _ _) fun _ => safe_update _ fun _ => ⟨rfl, rfl⟩

/-- Localizing locks is safe. -/
theorem safe_localizeLocks (device : OpId) : Safe n (localizeLocks device) :=
  safe_forEach (fun _ core _ _ => .get_bind fun _ _ _ => .bind (safe_orFail _ _) fun tile =>
    safe_forEach (fun _ use _ _ => safe_localizeUse tile use) core _) device _

/-- Laying out the buffers of a tile is safe. -/
theorem safe_layOutTile (model : DeviceModel) (coreTiles : List Tile) (g : TileBuffers) :
    Safe n (layOutTile model coreTiles g) := by
  refine .bind (.foldlM (fun buffer _ next => ?_) _) fun next =>
    .bind (.foldlM (fun buffer _ next => ?_) _) fun _ => safe_pure _
  · refine .get_bind fun p _ _ => .bind (safe_orFail _ _) fun size =>
      .bind (safe_ensure _ _) fun _ => ?_
    split
    · exact safe_pure _
    · exact .bind (safe_ensure _ _) fun _ => .bind (safe_orFail _ _) fun _ => safe_pure _
  · refine .get_bind fun p _ _ => ?_
    split
    · exact .bind (safe_orFail _ _) fun _ => .bind (safe_orFail _ _) fun _ =>
        .bind (safe_ensure _ _) fun _ => .bind (safe_update _ fun _ => ⟨rfl, rfl⟩)
          fun _ => safe_pure _
    · exact safe_pure _

/-- Assigning addresses is safe. -/
theorem safe_assignBufferAddresses (device : OpId) : Safe n (assignBufferAddresses device) :=
  .get_bind fun _ _ _ => .bind (.forM fun _ _ => safe_ensure _ _) fun _ =>
    .bind (.foldlM (fun _ _ _ => .get_bind fun _ _ _ => .bind (safe_orFail _ _) fun _ =>
      safe_pure _) _) fun _ => .forM fun g _ => safe_layOutTile _ _ g

/-- Dropping memory spaces is safe. -/
theorem safe_dropMemorySpaces (device : OpId) : Safe n (dropMemorySpaces device) := by
  refine safe_forEach (fun _ buffer _ _ => ?_) device _
  exact safe_update buffer fun _ => ⟨rfl, rfl⟩

/-- Lowering a transfer is safe. -/
theorem safe_lowerTransfer (device : OpId) {transfer : OpId} (h : transfer < n) :
    Safe n (lowerTransfer device transfer) := by
  rw [lowerTransfer]
  refine .get_bind fun p _ hn => ?_
  have hlt := Nat.lt_of_lt_of_le h hn
  dsimp only
  refine .bind (safe_orFail _ _) fun _ => .bind (safe_orFail _ _) fun _ =>
    .bind (safe_ensure _ _) fun _ => .bind (safe_orFail _ _) fun _ =>
    .bind (safe_orFail _ _) fun _ => ?_
  exact .bind (safe_insertBefore hlt rfl) fun _ => .bind (safe_insertBefore hlt rfl) fun _ =>
    .bind (safe_insertBefore hlt rfl) fun _ => safe_erase hlt

/-! ### Object FIFOs -/

/-- Finding or creating the core on a tile is safe, and returns an operation that was created. -/
theorem yields_coreFor {device : OpId} (h : device < n) (tile : String) :
    Yields n (coreFor device tile) := by
  refine .get_bind fun p hp hn => ?_
  have hlt := Nat.lt_of_lt_of_le h hn
  split
  · rename_i core hcore
    exact yields_pure (hp.lt_size_of_findIn (List.mem_of_find?_eq_some hcore))
  · exact (yields_append hlt rfl).bind_yields fun m core _ hcore =>
      (safe_append hcore rfl).bind_yields fun _ => yields_pure hcore

/-- Appending an operation to a core is safe, and returns an operation that was created. -/
theorem yields_appendToCore {core : OpId} (hcore : core < n) {op : Operation}
    (h : op.result = none) : Yields n (appendToCore core op) := by
  refine .get_bind fun p hp hn => ?_
  have hlt := Nat.lt_of_lt_of_le hcore hn
  split
  · rename_i last hlast
    have hin := Program.mem_walkIn_of_mem_children (List.mem_of_getLast? hlast)
    split
    · exact yields_insertBefore (hp.sound.lt_size_of_walkIn hin) h
    · exact yields_append hlt h
  · exact yields_append hlt h

/-- Registering a process is safe. -/
theorem safe_registerProcess {device registration : OpId} (hdevice : device < n)
    (h : registration < n) : Safe n (registerProcess device registration) :=
  .get_bind fun _ _ hn => .bind (safe_orFail _ _) fun _ => .bind (safe_orFail _ _) fun _ =>
    .bind (safe_orFail _ _) fun _ => .bind (safe_orFail _ _) fun _ =>
    .bind (safe_orFail _ _) fun _ =>
    (yields_coreFor (Nat.lt_of_lt_of_le hdevice hn) _).bind fun _ _ hm hcore =>
    (yields_appendToCore hcore rfl).bind fun _ _ hm' hloop =>
    .bind (safe_append hloop rfl) fun _ => .bind (safe_append hloop rfl) fun _ =>
    .bind (safe_append hloop rfl) fun _ =>
    safe_erase (Nat.lt_of_lt_of_le h (Nat.le_trans hn (Nat.le_trans hm hm')))

/-- A new operation that defines a value which is fresh when it is created. -/
theorem safe_insertFresh {anchor : OpId} (hanchor : anchor < n)
    {op : Program → Operation} {α : Type}
    {f : Program → Action α}
    (hfresh : ∀ (p : Program) (v : String), (op p).result = some v → v ∉ p.definedValues)
    (hf : ∀ p, Safe n (f p)) : Safe n (do
      let p ← get
      let _ ← Action.insertBefore anchor (op p)
      f p) := fun p hp hn =>
  .get_bind hp ((safeAt_insertBefore (Nat.lt_of_lt_of_le hanchor hn) hp (hfresh p)).bind
    fun _ q _ hq hsize => hf p q hq (Nat.le_trans hn hsize))

/-- Recording the channel of a FIFO is safe. -/
theorem safe_insertAllocation (device : OpId) {fifo : OpId} (h : fifo < n)
    (name direction : String) (tile : Tile) (channel : Nat) :
    Safe n (insertAllocation device fifo name direction tile channel) := by
  refine .get_bind fun p _ hn => ?_
  split
  · exact .bind (safe_insertBefore (Nat.lt_of_lt_of_le h hn) rfl) fun _ => safe_pure _
  · exact safe_pure _

/-- Putting the stream of a FIFO is safe. -/
theorem safe_insertStream (device : OpId) {fifo : OpId} (h : fifo < n) (shape : FifoShape) :
    Safe n (insertStream device fifo shape) := by
  rw [insertStream]
  split
  · refine .get_bind fun p _ hn => ?_
    have hlt := Nat.lt_of_lt_of_le h hn
    exact .bind (safe_insertBefore hlt rfl) fun _ =>
      .bind (safe_insertAllocation _ hlt _ _ _ _) fun _ => safe_insertAllocation _ hlt _ _ _ _
  · exact safe_pure _

/-- Putting a buffer of a FIFO is safe. -/
theorem safe_insertSlot {fifo : OpId} (h : fifo < n) (shape : FifoShape) (i : Nat) :
    Safe n (insertSlot fifo shape i) := by
  rw [insertSlot]
  exact safe_insertFresh h (fun p v hv => Option.some.inj hv ▸ p.freshValue_notMem _)
    fun _ => safe_pure _

/-- Putting a lock of a FIFO is safe. -/
theorem safe_insertLock (device : OpId) {fifo : OpId} (h : fifo < n) (shape : FifoShape)
    (suffix : String) (initial : Int) : Safe n (insertLock device fifo shape suffix initial) := by
  rw [insertLock]
  dsimp only
  refine .bind (safe_nextFreeLockId _ _) fun _ => ?_
  exact safe_insertFresh h (fun p v hv => Option.some.inj hv ▸ p.freshValue_notMem _)
    fun _ => safe_pure _

/-- Reading what a FIFO asks for is safe. -/
theorem safe_readFifo (fifo : OpId) : Safe n (readFifo fifo) :=
  .get_bind fun _ _ _ => .bind (safe_orFail _ _) fun _ => .bind (safe_ensure _ _) fun _ =>
    .bind (safe_orFail _ _) fun _ => .bind (safe_orFail _ _) fun _ =>
    .bind (safe_orFail _ _) fun _ => .bind (safe_orFail _ _) fun _ =>
    .bind (safe_orFail _ _) fun _ => safe_pure _

/-- Lowering a FIFO is safe. -/
theorem safe_lowerObjectFifo (device : OpId) {fifo : OpId} (h : fifo < n) :
    Safe n (lowerObjectFifo device fifo) := by
  rw [lowerObjectFifo]
  refine .bind (safe_readFifo _) fun shape => .bind (.forM fun i _ => safe_insertSlot h _ i)
    fun _ => ?_
  refine .bind (safe_insertLock _ h _ _ _) fun _ => .bind (safe_insertLock _ h _ _ _) fun _ => ?_
  exact .bind (safe_insertStream _ h _) fun _ => .get_bind fun _ _ hn => .bind
    (.forM fun _ _ => safe_update _ fun op =>
      ⟨result_lowerAccess _ _ op, hasRegion_lowerAccess _ _ op⟩) fun _ =>
      safe_erase (Nat.lt_of_lt_of_le h hn)

/-! ### Routing -/

/-- Reading the operands of a source is safe. -/
theorem safe_sourceOperands (id : OpId) : Safe n (sourceOperands id) :=
  .get_bind fun _ _ _ => .bind (safe_ensure _ _) fun _ => safe_pure _

/-- Putting the packet flow of a group is safe. -/
theorem safe_insertPacketFlow {broadcast : OpId} (h : broadcast < n) (source : List Attribute)
    (group : OpId) : Safe n (insertPacketFlow broadcast source group) :=
  .get_bind fun _ _ hn => .bind (safe_orFail _ _) fun _ =>
    (yields_insertBefore (Nat.lt_of_lt_of_le h hn) rfl).bind fun _ _ _ hflow =>
    .bind (safe_append hflow rfl) fun _ => .forM fun _ _ => .bind (safe_append hflow rfl) fun _ =>
    safe_pure _

/-- Lowering a broadcast is safe. -/
theorem safe_lowerBroadcast {broadcast : OpId} (h : broadcast < n) :
    Safe n (lowerBroadcast broadcast) :=
  .bind (safe_sourceOperands _) fun source => .get_bind fun _ _ hn =>
    have hlt := Nat.lt_of_lt_of_le h hn
    .bind (.forM fun group _ => safe_insertPacketFlow hlt source group) fun _ => safe_erase hlt

/-- Lowering a multicast is safe. -/
theorem safe_lowerMulticast {multicast : OpId} (h : multicast < n) :
    Safe n (TileFlow.lowerMulticast multicast) :=
  .bind (safe_sourceOperands _) fun _ => .get_bind fun _ _ hn =>
    have hlt := Nat.lt_of_lt_of_le h hn
    .bind (.forM fun _ _ => .bind (safe_insertBefore hlt rfl) fun _ => safe_pure _)
      fun _ => safe_erase hlt

/-- Reading an endpoint is safe. -/
theorem safe_readEndpoint (op : Operation) (first : Nat) : Safe n (readEndpoint op first) :=
  .get_bind fun _ _ _ => .bind (safe_orFail _ _) fun _ => .bind (safe_orFail _ _) fun _ =>
    .bind (safe_orFail _ _) fun _ => .bind (safe_orFail _ _) fun _ => safe_pure _

/-- Finding or creating the value of a tile is safe. -/
theorem safe_tileValue {device : OpId} (h : device < n) (tile : Tile) :
    Safe n (tileValue device tile) := fun p hp hn => by
  refine .get_bind hp ?_
  split
  · exact safe_pure _ p hp (Nat.zero_le _)
  · refine (safeAt_prepend (Nat.lt_of_lt_of_le h hn) hp fun v hv => ?_).bind fun _ q _ hq _ =>
      safe_pure _ q hq (Nat.zero_le _)
    rw [Option.some.injEq] at hv
    exact hv ▸ p.freshValue_notMem _

/-- Finding or creating the switchbox on a tile is safe, and returns an operation that was created.
-/
theorem yields_switchboxFor {device : OpId} (h : device < n) (tile : Tile) :
    Yields n (switchboxFor device tile) := by
  refine .get_bind fun p hp hn => ?_
  have hlt := Nat.lt_of_lt_of_le h hn
  split
  · rename_i box hbox
    exact yields_pure (hp.lt_size_of_findIn (List.mem_of_find?_eq_some hbox))
  · exact (safe_tileValue hlt _).bind_yields fun _ => yields_append hlt rfl

/-- Adding a rule to a switchbox is safe. -/
theorem safe_addOnce {box : OpId} (hbox : box < n) {rule : Operation} (h : rule.result = none) :
    Safe n (addOnce box rule) := by
  refine .get_bind fun p _ hn => ?_
  dsimp only
  split
  · exact safe_pure _
  · exact .bind (safe_append (Nat.lt_of_lt_of_le hbox hn) h) fun _ => safe_pure _

/-- Laying packet rules along a path is safe. -/
theorem safe_layPackets {device : OpId} (h : device < n) (id : Int) (output input : Channel)
    (path : List Tile) : Safe n (layPackets device id output input path) := by
  induction path generalizing n input with
  | nil => exact safe_pure _
  | cons tile rest ih =>
      cases rest with
      | nil => exact (yields_switchboxFor h _).bind fun _ _ _ hbox => safe_addOnce hbox rfl
      | cons next rest =>
          exact (yields_switchboxFor h _).bind fun _ _ hm hbox =>
            .bind (safe_addOnce hbox rfl) fun _ => ih (Nat.lt_of_lt_of_le h hm) _

/-- Routing a packet flow is safe. -/
theorem safe_routePacketFlow {device flow : OpId} (hdevice : device < n) (h : flow < n) :
    Safe n (routePacketFlow device flow) := by
  refine .get_bind fun p _ hn => .bind (safe_orFail _ _) fun id => ?_
  dsimp only
  split
  · exact .bind (safe_readEndpoint _ _) fun source =>
      .bind (safe_ensure _ _) fun _ => .bind (.mapM fun _ _ => safe_readEndpoint _ _) fun _ =>
      .bind (safe_ensure _ _) fun _ => .bind (.forM fun _ _ => .bind (safe_ensure _ _) fun _ =>
        safe_layPackets (Nat.lt_of_lt_of_le hdevice hn) _ _ _ _) fun _ =>
        safe_erase (Nat.lt_of_lt_of_le h hn)
  · exact safe_throw_bind _ _

/-- Laying connections along a path is safe. -/
theorem safe_layCircuit {device : OpId} (h : device < n) (output input : Channel)
    (path : List Tile) (l : ChannelLedger) : Safe n (layCircuit device output l input path) := by
  induction path generalizing n l input with
  | nil => exact safe_pure _
  | cons tile rest ih =>
      cases rest with
      | nil =>
          exact (yields_switchboxFor h _).bind fun _ _ _ hbox =>
            .bind (safe_append hbox rfl) fun _ => safe_pure _
      | cons next rest =>
          exact .bind (safe_orFail _ _) fun _ => (yields_switchboxFor h _).bind fun _ _ hm hbox =>
            .bind (safe_append hbox rfl) fun _ => ih (Nat.lt_of_lt_of_le h hm) _ _

/-- Routing a flow is safe. -/
theorem safe_routeCircuitFlow {device : OpId} (hdevice : device < n) (l : ChannelLedger)
    {flow : OpId} (h : flow < n) : Safe n (routeCircuitFlow device l flow) :=
  .get_bind fun _ _ hn => .bind (safe_readEndpoint _ _) fun _ =>
    .bind (safe_readEndpoint _ _) fun _ => .bind (safe_ensure _ _) fun _ =>
    .bind (safe_ensure _ _) fun _ =>
    .bind (safe_layCircuit (Nat.lt_of_lt_of_le hdevice hn) _ _ _ _) fun _ =>
    .bind (safe_erase (Nat.lt_of_lt_of_le h hn)) fun _ => safe_pure _

/-- Routing the flows of a device is safe. -/
theorem safe_routeCircuitFlows {device : OpId} (h : device < n) :
    Safe n (TileFlow.routeCircuitFlows device) :=
  .get_bind fun _ hp hn => .bind (.foldlM (fun _ hflow l =>
    safe_routeCircuitFlow (Nat.lt_of_lt_of_le h hn) l (hp.lt_size_of_findIn hflow)) _)
    fun _ => safe_pure _

/-! ### Cleaning up -/

/-- Erasing an operation unless it is erased is safe. -/
theorem safe_eraseLive {id : OpId} (h : id < n) : Safe n (eraseLive id) := by
  refine .get_bind fun p _ hn => ?_
  split
  · exact safe_erase (Nat.lt_of_lt_of_le h hn)
  · exact safe_pure _

/-- Dropping runtime operations is safe. -/
theorem safe_dropRuntime : Safe n TileFlow.dropRuntime := by
  refine safe_forWalk fun m id h => .get_bind fun p _ hm => ?_
  split
  · exact safe_eraseLive (Nat.lt_of_lt_of_le h hm)
  · exact safe_pure _

/-- Dropping terminators and unused declarations is safe. -/
theorem safe_dropUnused : Safe n TileFlow.dropUnused := by
  refine .get_bind fun q hq _ => .bind (.forM fun id hid => .get_bind fun p _ hn => ?_) fun _ =>
    .get_bind fun _ _ _ => safe_forRoots fun m id h => .get_bind fun p _ hm => ?_
  · dsimp only
    split
    · exact safe_eraseLive (Nat.lt_of_lt_of_le (hq.sound.created id hid) hn)
    · exact safe_pure _
  · split
    · exact safe_erase (Nat.lt_of_lt_of_le h hm)
    · exact safe_pure _

/-- Merging equal declarations and globals is safe. -/
theorem safe_mergeEqual : Safe n TileFlow.mergeEqual := by
  refine .get_bind fun p hp _ => .bind (.foldlM (fun id hid seen => ?_) _) fun _ => safe_pure _
  have hlt := hp.sound.created id (Program.mem_walk_of_mem_roots hid)
  refine .get_bind fun q _ hle => ?_
  dsimp only
  split
  · exact safe_pure _
  · split
    · exact .bind (safe_erase (Nat.lt_of_lt_of_le hlt hle)) fun _ => safe_pure _
    · exact safe_pure _

/-- Ending a function with a return is safe. -/
theorem safe_terminate {id : OpId} (h : id < n) : Safe n (terminate id) := by
  refine .get_bind fun p _ hn => ?_
  have hlt := Nat.lt_of_lt_of_le h hn
  dsimp only
  split
  · split
    · split
      · exact safe_pure _
      · exact .bind (safe_append hlt rfl) fun _ => safe_pure _
    · exact .bind (safe_append hlt rfl) fun _ => safe_pure _
  · exact safe_pure _

/-- Giving backend names is safe. -/
theorem safe_lowerNames : Safe n TileFlow.lowerNames :=
  .get_bind fun _ _ _ => .bind (.forM fun _ _ => .get_bind fun _ _ _ =>
    .bind (safe_orFail _ _) fun _ => safe_update _ fun _ => ⟨rfl, rfl⟩) fun _ =>
    safe_forRoots fun _ _ h => safe_terminate h

/-! ### Cores -/

/-- Lowering a lock use is safe. -/
theorem safe_lowerLockUse (intrinsics : String × String) (use : OpId) :
    Safe n (lowerLockUse intrinsics use) := by
  rw [lowerLockUse]
  refine .get_bind fun p _ _ => ?_
  dsimp only
  refine .bind (safe_orFail _ _) fun _ => .bind (safe_orFail _ _) fun _ => ?_
  split
  · exact .bind (safe_pure _) fun _ => safe_update _ fun _ => ⟨rfl, rfl⟩
  · split
    · exact .bind (safe_pure _) fun _ => safe_update _ fun _ => ⟨rfl, rfl⟩
    · exact safe_throw_bind _ _

/-- Lowering an operation of a core is safe. -/
theorem safe_lowerCoreOp (intrinsics : String × String) (symbols : BufferSymbols)
    (locals : List String) (tile : Tile) (id : OpId) :
    Safe n (lowerCoreOp intrinsics symbols locals tile id) := by
  rw [lowerCoreOp]
  refine .get_bind fun p _ _ => ?_
  dsimp only
  split
  · exact safe_lowerLockUse _ _
  · exact .bind (fun _ hp _ => safeAt_of_eq hp rfl) fun _ => safe_update _ fun _ => ⟨rfl, rfl⟩

variable {p q : Program} {device core : OpId} {symbols : BufferSymbols}

/-- The operations of a core are changed in place. -/
theorem body_lowerCoreOps {intrinsics : String × String} {locals : List String} {tile : Tile}
    {l : List OpId}
    (h : runOn (l.forM (lowerCoreOp intrinsics symbols locals tile)) p = (.ok (), q)) :
    q.body = p.body :=
  forM_induction (I := fun r => r.body = p.body) h rfl fun _ _ r s hr hs => by
    obtain ⟨g, rfl, -⟩ := lowerCoreOp_ok hs
    exact hr

/-- A new function before a device is at the top, and what is inside of a core is still there to be
moved into it. -/
theorem Program.Tree.insertFunction (hp : p.Tree) (hdevice : device ∈ p.body.roots)
    (hcore : core ∈ p.walk) (function : Operation) :
    p.slots.size ∈ (p.insertBefore device function).2.body.roots ∧
      core ∈ (p.insertBefore device function).2.walk ∧
      (p.insertBefore device function).1 = p.slots.size ∧
      ∀ id ∈ (p.insertBefore device function).2.children (some core),
        id ∈ (p.insertBefore device function).2.walk ∧ id ≠ p.slots.size := by
  obtain ⟨i, hi⟩ := Program.insertBefore_of_mem_roots hp.sound.toWellFormed hdevice function
  have hq := hp.insertAt none i function
  have hroot : p.slots.size ∈ (p.insertAt none i function).2.body.roots :=
    Forest.mem_roots_insertAt.2 (.inl rfl)
  have hstill : core ∈ (p.insertAt none i function).2.walk :=
    Program.mem_walk_insertAt_none.2 (.inr hcore)
  obtain ⟨g, hg, hbelow⟩ := Program.exists_below hstill
  rw [hi]
  refine ⟨hroot, hstill, rfl, fun id hid => ?_⟩
  have hin := Program.mem_walkIn_of_mem_children hid
  refine ⟨hq.sound.mem_walk_of_walkIn hstill hin, ?_⟩
  rintro rfl
  rw [Program.walkIn, hbelow] at hin
  exact hq.distinct_body.notMem_roots_of_below hg hin hroot

/-- The operations of a core are moved into a new function before a device, and the core is
erased. -/
theorem safeAt_outline (hp : p.Orderly) (hdevice : device ∈ p.body.roots) (hcore : core ∈ p.walk)
    {function : Operation} (hresult : function.result = none) : SafeAt p (do
      let function ← Action.insertBefore device function
      ((← get).children (some core)).forM fun child => Action.moveTo child function
      Action.erase core) := by
  have hlt := hp.sound.created device (Program.mem_walk_of_mem_roots hdevice)
  refine (safeAt_insertBefore hlt hp (Program.fresh_of_none hresult)).bind
    fun _ q hinsert hq _ => ?_
  obtain ⟨hroot, hstill, hnew, hchildren⟩ := hp.tree.insertFunction hdevice hcore function
  rw [runOn_insertBefore, Prod.mk.injEq, Except.ok.injEq, hnew] at hinsert
  obtain ⟨rfl, rfl⟩ := hinsert
  refine .get_bind hq ((safeAt_moveAll hq hroot hchildren).bind fun _ r _ hr hsize => ?_)
  have hlt := Nat.lt_of_lt_of_le (hq.sound.created core hstill) hsize
  exact safe_erase hlt r hr (Nat.le_refl _)

/-- A core of a device at the top becomes a function in a safe way. -/
theorem safeAt_lowerCore (hp : p.Orderly) (hdevice : device ∈ p.body.roots)
    (hcore : core ∈ p.walk) : SafeAt p (lowerCore device symbols core) := by
  rw [lowerCore]
  refine .get_bind hp ((safe_orFail _ _ p hp (Nat.zero_le _)).bind fun tile q hq _ _ => ?_)
  obtain ⟨-, rfl⟩ := orFail_ok.1 hq
  refine (Safe.forM (fun id _ => safe_lowerCoreOp _ _ _ _ id) p hp (Nat.zero_le _)).bind
    fun _ q hops hq _ => ?_
  have hbody := body_lowerCoreOps hops
  exact safeAt_outline hq (hbody ▸ hdevice) (by rwa [Program.walk, hbody]) rfl

/-- When a core below the top has become a function, everything else is still in the body, and at
the top if it was there. -/
theorem lowerCore_leaves (hp : p.Tree) (hdevice : device ∈ p.body.roots) (hcore : core ∈ p.walk)
    (hinner : core ∉ p.body.roots) (h : runOn (lowerCore device symbols core) p = (.ok (), q)) :
    (∀ id ∈ p.body.roots, id ∈ q.body.roots) ∧
      ∀ id ∈ p.walk, id ≠ core → id ∉ p.body.roots → id ∈ q.walk ∧ id ∉ q.body.roots := by
  obtain ⟨code, hcode, -⟩ := Program.exists_below hcore
  obtain ⟨tile, -, hout⟩ := lowerCore_outlined hp.sound.toWellFormed hdevice hcode hinner h
  obtain ⟨i, hbody⟩ := hout.body
  have hdistinct := hp.distinct_body
  refine ⟨fun id hid => ?_, fun id hid hne hroot => ⟨?_, fun hmem => ?_⟩⟩
  · rw [hbody, Forest.mem_roots_insertAt, Forest.roots_remove hdistinct]
    refine .inr (List.mem_filter.2 ⟨hid, decide_eq_true ?_⟩)
    rintro rfl
    exact hinner hid
  · rw [Program.walk, hbody, Forest.mem_preorder_insertAt,
      Forest.mem_preorder_remove hdistinct hcode]
    by_cases hin : id ∈ code.preorder
    · exact .inr (.inl hin)
    · exact .inr (.inr ⟨hid, hne, hin⟩)
  · rw [hbody, Forest.mem_roots_insertAt, Forest.roots_remove hdistinct] at hmem
    rcases hmem with rfl | hmem
    · exact Nat.lt_irrefl _ (hp.sound.created _ hid)
    · exact hroot (List.mem_filter.1 hmem).1

/-- Whether every operation at the top of a program is at the top of another. -/
def Program.KeepsRoots (p q : Program) : Prop :=
  ∀ id ∈ p.body.roots, id ∈ q.body.roots

/-- A creation before another operation keeps those at the top. -/
theorem Program.KeepsRoots.insertBefore (hp : p.Sound) (anchor : OpId) (op : Operation) :
    p.KeepsRoots (p.insertBefore anchor op).2 := by
  obtain ⟨parent, i, hinsert⟩ := Program.insertBefore_eq p anchor op
  rw [hinsert]
  exact fun id hid => ((Program.created_insertAt hp parent i op).roots id).2 (.inl hid)

/-- A creation before another operation keeps those at the top, whatever is returned. -/
theorem insertBefore_pure_keepsRoots {α : Type} {anchor : OpId} {op : Operation} {a b : α}
    (hp : p.Sound) (h : runOn (do
      let _ ← Action.insertBefore anchor op
      pure a) p = (.ok b, q)) : p.KeepsRoots q := by
  obtain ⟨_, s, hrun, h⟩ := bind_ok.1 h
  obtain ⟨-, rfl⟩ := pure_ok.1 h
  rw [runOn_insertBefore, Prod.mk.injEq] at hrun
  obtain ⟨-, rfl⟩ := hrun
  exact .insertBefore hp anchor op

/-- The global of a buffer keeps the operations at the top. -/
theorem insertGlobal_keepsRoots {symbols' : BufferSymbols} {buffer : OpId} (hp : p.Sound)
    (h : runOn (insertGlobal device symbols buffer) p = (.ok symbols', q)) : p.KeepsRoots q := by
  rw [insertGlobal, get_bind_ok] at h
  dsimp only at h
  split at h
  · exact insertBefore_pure_keepsRoots hp h
  · obtain ⟨-, rfl⟩ := pure_ok.1 h
    exact fun _ hid => hid

/-- The declaration of an intrinsic keeps the operations at the top. -/
theorem declareIntrinsic_keepsRoots {declared declared' : List String} {intrinsic : String}
    (hp : p.Sound)
    (h : runOn (declareIntrinsic device declared intrinsic) p = (.ok declared', q)) :
    p.KeepsRoots q := by
  rw [declareIntrinsic] at h
  split at h
  · obtain ⟨-, rfl⟩ := pure_ok.1 h
    exact fun _ hid => hid
  · exact insertBefore_pure_keepsRoots hp h

/-- When a device is erased, the others are still there. -/
theorem Program.KeepsRoots.erase {base : Program} (h : base.KeepsRoots p) (hp : p.Tree) :
    ∀ id ∈ base.body.roots, id ≠ device → id ∈ (p.erase device).body.roots := by
  intro id hid hne
  rw [Program.body_erase, Forest.roots_remove hp.distinct_body]
  exact List.mem_filter.2 ⟨h id hid, decide_eq_true hne⟩

/-- The global of a buffer is put before its device in a safe way. -/
theorem safe_insertGlobal {device : OpId} (h : device < n) (symbols : BufferSymbols)
    (buffer : OpId) : Safe n (insertGlobal device symbols buffer) := by
  refine .get_bind fun p _ hn => ?_
  dsimp only
  split
  · exact .bind (safe_insertBefore (Nat.lt_of_lt_of_le h hn) rfl) fun _ => safe_pure _
  · exact safe_pure _

/-- An intrinsic is declared before its device in a safe way. -/
theorem safe_declareIntrinsic {device : OpId} (h : device < n) (declared : List String)
    (intrinsic : String) : Safe n (declareIntrinsic device declared intrinsic) := by
  rw [declareIntrinsic]
  split
  · exact safe_pure _
  · exact .bind (safe_insertBefore h rfl) fun _ => safe_pure _

/-- A loop whose rounds keep the operations at the top. -/
theorem ensures_foldlM {α β : Type} {f : α → β → Action α} (hp : p.Orderly) {l : List β} {a : α}
    (hf : ∀ a b, Safe p.slots.size (f a b))
    (hroots : ∀ a b c q s, Program.Sound q → runOn (f a b) q = (.ok c, s) → q.KeepsRoots s) :
    Ensures p (l.foldlM f a) p.KeepsRoots :=
  (Ensures.foldlM (I := fun _ q => p.slots.size ≤ q.slots.size ∧ p.KeepsRoots q) hp
    ⟨Nat.le_refl _, fun _ hid => hid⟩ fun b _ a q hpq hq =>
    have hsafe := hf a b q hq hpq.1
    ⟨hsafe, fun c s h => ⟨Nat.le_trans hpq.1 (hsafe.of_ok h).2, fun id hid =>
      hroots a b c q s hq.sound h id (hpq.2 id hid)⟩⟩).mono fun _ hI => hI.2

/-- The cores of a device that are still to become functions are below the top, also those that were
inside of one before, and the operations at the top of another program are there. -/
structure Program.CoresAhead (base : Program) (cores : List OpId) (p : Program) : Prop where
  roots : base.KeepsRoots p
  nodup : cores.Nodup
  inner : ∀ core ∈ cores, core ∈ p.walk ∧ core ∉ p.body.roots

/-- At the start all cores of a device lie ahead. -/
theorem Program.Tree.coresAhead (hp : p.Tree) (hdevice : device ∈ p.body.roots) :
    p.CoresAhead (p.findIn device "aie.core") p := by
  obtain ⟨g, hg, hbelow⟩ := Program.exists_below (Program.mem_walk_of_mem_roots hdevice)
  have hnodup := hp.sound.nodup_findIn (Program.mem_walk_of_mem_roots hdevice) "aie.core"
  refine ⟨fun _ hid => hid, hnodup, fun core hcore => ?_⟩
  have hin := (List.mem_filter.1 hcore).1
  rw [Program.walkIn, hbelow] at hin
  exact ⟨(hp.distinct_body.below hg).2.2 core hin, hp.distinct_body.notMem_roots_of_below hg hin⟩

/-- The next core becomes a function. -/
theorem Program.CoresAhead.step {base : Program} {rest : List OpId}
    (h : base.CoresAhead (core :: rest) p) (hp : p.Tree) (hdevice : device ∈ base.body.roots)
    (hrun : runOn (lowerCore device symbols core) p = (.ok (), q)) : base.CoresAhead rest q := by
  obtain ⟨hfresh, hnodup⟩ := List.nodup_cons.1 h.nodup
  obtain ⟨hcore, hinner⟩ := h.inner core List.mem_cons_self
  obtain ⟨hroots, hrest⟩ := lowerCore_leaves hp (h.roots device hdevice) hcore hinner hrun
  refine ⟨fun id hid => hroots id (h.roots id hid), hnodup, fun c hc => ?_⟩
  obtain ⟨hcwalk, hcinner⟩ := h.inner c (List.mem_cons_of_mem _ hc)
  exact hrest c hcwalk (by rintro rfl; exact hfresh hc) hcinner

/-- The cores of a device become functions one after the other. -/
theorem ensures_lowerAll (hp : p.Orderly) (hdevice : device ∈ p.body.roots) :
    Ensures p ((p.findIn device "aie.core").forM (lowerCore device symbols)) p.KeepsRoots := by
  refine (Ensures.forM (I := p.CoresAhead) hp (hp.tree.coresAhead hdevice)
    fun core rest q hI hq => ?_).mono fun q hI => hI.roots
  exact ⟨safeAt_lowerCore hq (hI.roots device hdevice) (hI.inner core List.mem_cons_self).1,
    fun _ r hrun => hI.step hq.tree hdevice hrun⟩

/-- A device at the top is replaced in a safe way, and the others stay at the top. -/
theorem ensures_lowerDevice (hp : p.Orderly) (hdevice : device ∈ p.body.roots)
    (declared : List String) : Ensures p (lowerDevice declared device) fun q =>
      ∀ id ∈ p.body.roots, id ≠ device → id ∈ q.body.roots := by
  have hlt := hp.sound.created device (Program.mem_walk_of_mem_roots hdevice)
  refine .get_bind hp ((ensures_foldlM hp (safe_insertGlobal hlt)
    fun _ _ _ _ _ => insertGlobal_keepsRoots).bind fun symbols q _ hq hpq hpqroots => ?_)
  refine .get_bind hq ((ensures_lowerAll hq (hpqroots device hdevice)).bind
    fun _ r _ hr hqr hqrroots => ?_)
  have hltr := Nat.lt_of_lt_of_le hlt (Nat.le_trans hpq hqr)
  refine (ensures_foldlM hr (safe_declareIntrinsic hltr)
    fun _ _ _ _ _ => declareIntrinsic_keepsRoots).bind fun declared s _ hs hrs hrsroots => ?_
  refine ⟨((safe_erase (Nat.lt_of_lt_of_le hltr hrs)).bind fun _ => safe_pure _) s hs
    (Nat.le_refl _), fun _ t h => ?_⟩
  obtain ⟨_, u, herase, h⟩ := bind_ok.1 h
  obtain ⟨-, rfl⟩ := pure_ok.1 h
  rw [runOn_erase, Prod.mk.injEq] at herase
  obtain ⟨-, rfl⟩ := herase
  exact Program.KeepsRoots.erase (fun id hid => hrsroots id (hqrroots id (hpqroots id hid))) hs.tree

/-- The devices of a program are replaced in a safe way. -/
theorem safe_lowerCores : Safe n TileFlow.lowerCores := fun p hp _ => by
  have hnodup : p.devices.Nodup := List.Pairwise.filter _ hp.tree.distinct_body.nodup_roots
  have hloop : SafeAt p (p.devices.foldlM lowerDevice []) :=
    (Ensures.foldlM (I := fun rest q => rest.Nodup ∧ ∀ device ∈ rest, device ∈ q.body.roots) hp
      ⟨hnodup, fun device hdevice => (List.mem_filter.1 hdevice).1⟩
      fun device rest declared q hI hq => by
        obtain ⟨hnodup, hroots⟩ := hI
        obtain ⟨hfresh, hnodup⟩ := List.nodup_cons.1 hnodup
        refine (ensures_lowerDevice hq (hroots device List.mem_cons_self) declared).mono
          fun r hr => ⟨hnodup, fun e he => ?_⟩
        exact hr e (hroots e (List.mem_cons_of_mem _ he)) (by rintro rfl; exact hfresh he)).1
  exact .get_bind hp (hloop.bind fun _ q _ hq _ => safe_pure () q hq (Nat.zero_le _))

/-! ### Stages -/

/-- A stage on devices is safe when it is on each of them. -/
theorem safe_onEachDevice {action : OpId → Action Unit}
    (h : ∀ m device, device < m → Safe m (action device)) : Safe n (Stage.onEachDevice action) :=
  .get_bind fun _ hp _ => .forM fun device hdevice =>
    h _ device (hp.sound.created device (Program.mem_walk_of_mem_devices hdevice))

namespace Stage

/-- Every stage of the compiler is safe. -/
theorem safe_action {s : Stage} (hs : s ∈ builtin) : Safe 0 s.action := by
  cases s with
  | lowerAffine => exact safe_lowerAffine
  | canonicalizeDevice => exact safe_wrapInDevice
  | assignLockIds => exact safe_onEachDevice fun _ device _ => safe_assignLockIds device
  | registerObjectFifos =>
      exact safe_onEachDevice fun _ device h => safe_forEach (fun _ _ hm hid =>
        safe_registerProcess (Nat.lt_of_lt_of_le h hm) hid) device _
  | lowerObjectFifos =>
      exact safe_onEachDevice fun _ device _ => safe_forEach (fun _ _ _ hid =>
        safe_lowerObjectFifo device hid) device _
  | broadcastPackets =>
      exact safe_onEachDevice fun _ device _ => safe_forEach (fun _ _ _ hid =>
        safe_lowerBroadcast hid) device _
  | routePacketFlows =>
      exact safe_onEachDevice fun _ device h => safe_forEach (fun _ _ hm hid =>
        safe_routePacketFlow (Nat.lt_of_lt_of_le h hm) hid) device _
  | lowerMulticast =>
      exact safe_onEachDevice fun _ device _ => safe_forEach (fun _ _ _ hid =>
        safe_lowerMulticast hid) device _
  | assignBufferAddresses =>
      exact safe_onEachDevice fun _ device _ => safe_assignBufferAddresses device
  | lowerStructured => exact safe_lowerStructured
  | routeCircuitFlows => exact safe_onEachDevice fun _ _ h => safe_routeCircuitFlows h
  | lowerTransfers =>
      exact safe_onEachDevice fun _ device _ => safe_forEach (fun _ _ _ hid =>
        safe_lowerTransfer device hid) device _
  | localizeLocks => exact safe_onEachDevice fun _ device _ => safe_localizeLocks device
  | normalizeAddressSpaces =>
      exact safe_onEachDevice fun _ device _ => safe_dropMemorySpaces device
  | lowerCores => exact safe_lowerCores
  | dropRuntime => exact safe_dropRuntime
  | dropUnused => exact safe_dropUnused
  | mergeEqual => exact safe_mergeEqual
  | lowerNames => exact safe_lowerNames
  | custom name scope action => simp [builtin] at hs

/-- The program that stages leave when each runs on what those before it have left, whether they
succeeded or gave up. -/
def runEach (stages : List Stage) (p : Program) : Program :=
  stages.foldl (fun q s => (s.run q).2) p

/-- What stages leave of an orderly program is orderly. -/
theorem runEach_orderly {stages : List Stage} (hstages : ∀ s ∈ stages, s ∈ builtin)
    (hp : p.Orderly) : (runEach stages p).Orderly := by
  induction stages generalizing p with
  | nil => exact hp
  | cons s rest ih =>
      exact ih (fun t ht => hstages t (List.mem_cons_of_mem _ ht))
        (safe_action (hstages s List.mem_cons_self) p hp (Nat.zero_le _)).1

/-- Stages edit the arena of a program as they edit the program. -/
theorem runEach_mirrors {stages : List Stage} (hstages : ∀ s ∈ stages, s ∈ builtin)
    (hp : p.Orderly) (hcomplete : p.Complete) :
    (runEach stages p).Complete ∧ p.Mirrors (runEach stages p) := by
  induction stages generalizing p with
  | nil => exact ⟨hcomplete, .refl⟩
  | cons s rest ih =>
      obtain ⟨hq, -, hmirrors⟩ := safe_action (hstages s List.mem_cons_self) p hp (Nat.zero_le _)
      obtain ⟨hcq, hpq⟩ := hmirrors hcomplete
      obtain ⟨hcr, hqr⟩ := ih (fun t ht => hstages t (List.mem_cons_of_mem _ ht)) hq hcq
      exact ⟨hcr, hpq.trans hqr⟩

end Stage

/-- A source that is parsed gives an orderly program. -/
theorem Source.orderly_of_parse {source : String} (h : Source.parse source = .ok p) : p.Orderly :=
  have ⟨hp, hvalues, hdetached⟩ := Source.parse_ok h
  ⟨hp.tree hdetached, hvalues⟩

/-- What a pipeline of stages of the compiler makes of an orderly program is orderly. -/
theorem Pipeline.runStages_orderly {stages : List Stage} (hstages : ∀ s ∈ stages, s ∈ Stage.builtin)
    (hp : p.Orderly) (h : runStages stages p = (.ok (), q)) : q.Orderly := by
  induction stages generalizing p with
  | nil =>
      obtain rfl : p = q := (Prod.mk.inj h).2
      exact hp
  | cons s rest ih =>
      obtain ⟨r, hrun, hrest⟩ := runStages_cons_ok.1 h
      have hr := (Stage.safe_action (hstages s List.mem_cons_self) p hp (Nat.zero_le _)).1
      rw [hrun] at hr
      exact ih (fun t ht => hstages t (List.mem_cons_of_mem _ ht)) hr hrest

/-- A source in canonical form is an orderly program. -/
theorem canonicalizeSource_orderly {source : String} (h : canonicalizeSource source = .ok q) :
    q.Orderly := by
  obtain ⟨p, hparse, hrun⟩ := canonicalizeSource_ok h
  refine Pipeline.runStages_orderly (fun s hs => ?_) (Source.orderly_of_parse hparse) hrun
  simp only [Pipeline.canonicalize, List.mem_cons, List.not_mem_nil, or_false] at hs
  rcases hs with rfl | rfl | rfl | rfl | rfl | rfl | rfl | rfl | rfl | rfl <;> simp [Stage.builtin]

end TileFlow
