import TileFlow.Proofs.Core.Unified
import TileFlow.Proofs.Stage.Frame
import TileFlow.Proofs.Stage.Values
import TileFlow.Proofs.Stage.Retaining

/-!
# Stages lose no operation

No stage puts an erased operation back into the body. A new operation is in the body as long as the
one it is put next to is there, which fails for one kind of source only: where an operation that is
replaced in its place stands below another of its name, the outer one takes the inner one away, and
what replaces the inner one is out of reach. Whether a source has such operations can be told from
the source, since stages neither create any nor put one below another.

## Main results

* `Stage.tidy_run`: every stage of the compiler leaves a tidy program tidy, also when it gives up.
* `Stage.runEach_live`: the operations that are not erased are those of the body.
-/

namespace TileFlow

open TileFlow.Action

variable {S : Prop} {n : Nat} {A G : OpId → Prop} {p q : Program} {a core device fifo : OpId}

/-! ### Loops over the operations of a device -/

/-- A loop over the operations with a name, whose rounds cut nothing out. -/
theorem retains_forEach {f : OpId → Action Unit}
    (hf : ∀ p id, RetainsAll S (Program.slots p).size (· ∈ p.walk) (f id) noResult) (a : OpId)
    (name : String) : RetainsAll S n A (do ((← get).findIn a name).forM f) noResult :=
  .get_bind fun p _ _ _ => .forM fun id _ => hf p id

/-- A device is below no operation that is below it. -/
theorem Program.Tree.notMem_interval (hp : p.Tree) {d : OpId} (hd : d ∈ p.walkIn device) :
    device ∉ p.interval d := fun hmem => by
  rcases List.mem_cons.1 hmem with rfl | hin
  · exact hp.notMem_walkIn_self _ hd
  · exact hp.notMem_walkIn_self device (hp.walkIn_trans hd hin)

/-- A loop over the operations of a device with a name, each of which is cut out by its own round,
and which rely on the device. -/
theorem tidyAt_forEach_device {f : OpId → Action Unit}
    (hf : ∀ id, RetainsBut S (id + 1) (· = device) (· = id) (f id) noResult) (hp : p.Tidy S)
    (hdevice : device ∈ p.walk) (name : String) :
    TidyAt S p (do ((← get).findIn device name).forM f) := by
  refine .get_bind ?_
  rw [forM_eq_foldlM]
  have hlt : ∀ id ∈ p.findIn device name, id + 1 ≤ p.slots.size := fun id hid =>
    hp.sound.lt_size_of_walkIn (List.mem_filter.1 hid).1
  exact (RetainsBut.foldlM_erasing (A := fun _ => (· = device)) (hp.tree.nodup_findIn device name)
    hp (Nat.le_refl _) (fun _ _ _ x hx => by
      obtain rfl := hx
      exact ⟨hdevice, fun d hd _ => hp.tree.notMem_interval (List.mem_filter.1 hd).1⟩)
    (fun id hid _ => (hf id).mono (hlt id hid) (fun _ _ h => h) fun _ h => h) ()).tidy

/-- A loop over the operations of a device with a name of those that are replaced where they are:
each is cut out by its own round, which relies on it. -/
theorem tidyAt_forEach_replaced {f : OpId → Action Unit} {name : String}
    (hname : name ∈ replacedNames)
    (hf : ∀ id, RetainsBut S (id + 1) (· = id) (· = id) (f id) noResult) (hp : p.Tidy S)
    (hdevice : device ∈ p.walk) : TidyAt S p (do ((← get).findIn device name).forM f) := by
  refine .get_bind ?_
  rw [forM_eq_foldlM]
  have hwalk : ∀ id ∈ p.findIn device name, id ∈ p.walk := fun id hid =>
    hp.sound.mem_walk_of_walkIn hdevice (List.mem_filter.1 hid).1
  refine (RetainsBut.foldlM_erasing (A := fun b => (· = b)) (hp.tree.nodup_findIn device name)
    hp (Nat.le_refl _) (fun hS b hb x hx => ?_)
    (fun id hid _ => (hf id).mono (hp.sound.created id (hwalk id hid)) (fun _ _ h => h)
      fun _ h => h) ()).tidy
  subst hx
  refine ⟨hwalk x hb, fun d hd hne hmem => ?_⟩
  have hin := (List.mem_cons.1 hmem).resolve_left (Ne.symm hne)
  exact Bool.eq_false_iff.1 ((hp.apart hS).not_below hname (hwalk d hd)
    (List.mem_filter.1 hd).2 hin)
    (List.mem_filter.1 hb).2

/-! ### Locks and buffers -/

/-- Assigning lock identifiers leaves a tidy program tidy. -/
theorem retains_assignLockIds (device : OpId) :
    RetainsAll S n A (assignLockIds device) noResult := by
  refine .get_bind fun p _ _ _ => .bind (.foldlM (fun lock _ ledger => ?_) _) fun ledger =>
    .bind (.foldlM (fun lock _ ledger => ?_) _) fun _ => retains_pure_unit _
  · refine .get_bind fun p _ _ _ => .bind (retains_orFail _ _) fun tile => ?_
    split
    · exact retains_pure_unit _
    · exact .bind (retains_ensure _ _) fun _ => .bind (retains_ensure _ _) fun _ =>
        retains_pure_unit _
  · refine .get_bind fun p _ _ _ => ?_
    split
    · exact retains_pure_unit _
    · exact .bind (retains_orFail _ _) fun tile => .bind (retains_orFail _ _) fun id =>
        .bind (retains_update _ fun _ => .inl rfl) fun _ => retains_pure_unit _

/-- Looking for a free lock identifier leaves a tidy program tidy. -/
theorem retains_nextFreeLockId (device : OpId) (tile : Tile) :
    RetainsAll S n A (nextFreeLockId device tile) noResult :=
  .get_bind fun _ _ _ _ => retains_orFail _ _

/-- Localizing a lock use leaves a tidy program tidy. -/
theorem retains_localizeUse (tile : Tile) (use : OpId) :
    RetainsAll S n A (localizeUse tile use) noResult :=
  .get_bind fun _ _ _ _ => .bind (retains_orFail _ _) fun _ => .bind (retains_orFail _ _) fun _ =>
    .bind (retains_orFail _ _) fun _ => .bind (retains_orFail _ _) fun _ =>
    .bind (retains_ensure _ _) fun _ => retains_update _ fun _ => .inl rfl

/-- Localizing locks leaves a tidy program tidy. -/
theorem retains_localizeLocks (device : OpId) :
    RetainsAll S n A (localizeLocks device) noResult :=
  retains_forEach (fun _ core => .get_bind fun _ _ _ _ => .bind (retains_orFail _ _) fun tile =>
    retains_forEach (fun _ use => retains_localizeUse tile use) core _) device _

/-- Laying out the buffers of a tile leaves a tidy program tidy. -/
theorem retains_layOutTile (model : DeviceModel) (coreTiles : List Tile) (g : TileBuffers) :
    RetainsAll S n A (layOutTile model coreTiles g) noResult := by
  refine .bind (.foldlM (fun buffer _ next => ?_) _) fun next =>
    .bind (.foldlM (fun buffer _ next => ?_) _) fun _ => retains_pure_unit _
  · refine .get_bind fun p _ _ _ => .bind (retains_orFail _ _) fun size =>
      .bind (retains_ensure _ _) fun _ => ?_
    split
    · exact retains_pure_unit _
    · exact .bind (retains_ensure _ _) fun _ => .bind (retains_orFail _ _) fun _ =>
        retains_pure_unit _
  · refine .get_bind fun p _ _ _ => ?_
    split
    · exact .bind (retains_orFail _ _) fun _ => .bind (retains_orFail _ _) fun _ =>
        .bind (retains_ensure _ _) fun _ => .bind (retains_update _ fun _ => .inl rfl) fun _ =>
        retains_pure_unit _
    · exact retains_pure_unit _

/-- Assigning addresses leaves a tidy program tidy. -/
theorem retains_assignBufferAddresses (device : OpId) :
    RetainsAll S n A (assignBufferAddresses device) noResult :=
  .get_bind fun _ _ _ _ => .bind (.forM fun _ _ => retains_ensure _ _) fun _ =>
    .bind (.foldlM (fun _ _ _ => .get_bind fun _ _ _ _ => .bind (retains_orFail _ _) fun _ =>
      retains_pure_unit _) _) fun _ => .forM fun g _ => retains_layOutTile _ _ g

/-- Dropping memory spaces leaves a tidy program tidy. -/
theorem retains_dropMemorySpaces (device : OpId) :
    RetainsAll S n A (dropMemorySpaces device) noResult := by
  refine retains_forEach (fun _ buffer => ?_) device _
  exact retains_update buffer fun _ => .inl rfl

/-! ### Operations that are replaced where they are -/

/-- Lowering a transfer leaves a tidy program tidy. -/
theorem retains_lowerTransfer (device transfer : OpId) :
    RetainsBut S (transfer + 1) (· = transfer) (· = transfer) (lowerTransfer device transfer)
      noResult := by
  rw [lowerTransfer]
  refine .get_bind fun p _ hlt hA => ?_
  have hin : S → transfer ∈ p.walk := fun hS => hA hS transfer rfl
  refine .bind (retains_orFail _ _) fun _ => .bind (retains_orFail _ _) fun _ =>
    .bind (retains_ensure _ _) fun _ => .bind (retains_orFail _ _) fun _ =>
    .bind (retains_orFail _ _) fun _ => ?_
  exact .bind (retains_insertBefore hin (by simp [replacedNames, writeDescriptor])) fun _ =>
    .bind (retains_insertBefore hin (by simp [replacedNames, patchAddress])) fun _ =>
    .bind (retains_insertBefore hin (by simp [replacedNames, writeRegister])) fun _ =>
    retains_erase hlt rfl

/-- Reading what a FIFO asks for leaves a tidy program tidy. -/
theorem retains_readFifo (fifo : OpId) : RetainsAll S n A (readFifo fifo) noResult :=
  .get_bind fun _ _ _ _ => .bind (retains_orFail _ _) fun _ => .bind (retains_ensure _ _) fun _ =>
    .bind (retains_orFail _ _) fun _ => .bind (retains_orFail _ _) fun _ =>
    .bind (retains_orFail _ _) fun _ => .bind (retains_orFail _ _) fun _ =>
    .bind (retains_orFail _ _) fun _ => retains_pure_unit _

/-- A new operation before another one, and a result. -/
theorem retains_insertBefore_pure {α : Type} {b : α} {op : Operation} (ha : S → A a)
    (hop : op.name ∉ replacedNames) : RetainsAll S n A (do
      let _ ← Action.insertBefore a op
      pure b) noResult :=
  (retains_insertBefore ha hop).bind fun _ => retains_pure_unit b

/-- Putting a buffer of a FIFO leaves a tidy program tidy. -/
theorem retains_insertSlot (hA : S → A fifo) (shape : FifoShape) (i : Nat) :
    RetainsAll S n A (insertSlot fifo shape i) noResult :=
  .get_bind fun _ _ _ hwalk => retains_insertBefore_pure (fun hS => hwalk hS fifo (hA hS))
    (by simp [replacedNames])

/-- Putting a lock of a FIFO leaves a tidy program tidy. -/
theorem retains_insertLock (device : OpId) (hA : S → A fifo) (shape : FifoShape) (suffix : String)
    (initial : Int) : RetainsAll S n A (insertLock device fifo shape suffix initial) noResult := by
  rw [insertLock]
  exact .bind (retains_nextFreeLockId _ _) fun _ => .get_bind fun _ _ _ hwalk =>
    retains_insertBefore_pure (fun hS => hwalk hS fifo (hA hS)) (by simp [replacedNames])

/-- Recording the channel of a FIFO leaves a tidy program tidy. -/
theorem retains_insertAllocation (device : OpId) (hA : S → A fifo) (name direction : String)
    (tile : Tile) (channel : Nat) :
    RetainsAll S n A (insertAllocation device fifo name direction tile channel) noResult := by
  refine .get_bind fun _ _ _ hwalk => ?_
  split
  · exact retains_insertBefore_pure (fun hS => hwalk hS fifo (hA hS)) (by simp [replacedNames])
  · exact retains_pure_unit _

/-- Putting the stream of a FIFO leaves a tidy program tidy. -/
theorem retains_insertStream (device : OpId) (hA : S → A fifo) (shape : FifoShape) :
    RetainsAll S n A (insertStream device fifo shape) noResult := by
  rw [insertStream]
  split
  · refine .get_bind fun p _ _ hwalk => ?_
    have hin : S → fifo ∈ p.walk := fun hS => hwalk hS fifo (hA hS)
    exact .bind (retains_insertBefore hin (by simp [replacedNames])) fun _ =>
      .bind (retains_insertAllocation _ hin _ _ _ _) fun _ =>
        retains_insertAllocation _ hin _ _ _ _
  · exact retains_pure_unit _

/-- Lowering an access makes no operation that is replaced. -/
theorem name_lowerAccess (name : String) (locks : LockPair) (op : Operation) :
    (lowerAccess name locks op).name = op.name ∨
      (lowerAccess name locks op).name ∉ replacedNames := by
  rw [lowerAccess]
  split
  · exact .inl rfl
  · split
    · exact .inr (by simp [replacedNames])
    · exact .inl rfl

/-- Lowering a FIFO leaves a tidy program tidy. -/
theorem retains_lowerObjectFifo (device fifo : OpId) :
    RetainsBut S (fifo + 1) (· = fifo) (· = fifo) (lowerObjectFifo device fifo) noResult := by
  rw [lowerObjectFifo]
  refine .bind (retains_readFifo _) fun shape =>
    .bind (.forM fun i _ => retains_insertSlot (A := (· = fifo)) (fun _ => rfl) shape i) fun _ => ?_
  refine .bind (retains_insertLock _ (A := (· = fifo)) (fun _ => rfl) _ _ _) fun _ =>
    .bind (retains_insertLock _ (A := (· = fifo)) (fun _ => rfl) _ _ _) fun _ => ?_
  exact .bind (retains_insertStream _ (A := (· = fifo)) (fun _ => rfl) _) fun _ =>
    .get_bind fun _ _ hlt _ =>
    .bind (.forM fun id _ => retains_update id (name_lowerAccess _ _)) fun _ =>
      retains_erase hlt rfl

/-- Reading the operands of a source leaves a tidy program tidy. -/
theorem retains_sourceOperands (id : OpId) : RetainsAll S n A (sourceOperands id) noResult :=
  .get_bind fun _ _ _ _ => .bind (retains_ensure _ _) fun _ => retains_pure_unit _

/-- Putting the packet flow of a group leaves a tidy program tidy. -/
theorem retains_insertPacketFlow {broadcast : OpId} (hA : S → A broadcast)
    (source : List Attribute) (group : OpId) :
    RetainsAll S n A (insertPacketFlow broadcast source group) noResult :=
  .get_bind fun _ _ _ hwalk => .bind (retains_orFail _ _) fun _ =>
    .bind_result (retains_insertBefore (fun hS => hwalk hS broadcast (hA hS))
      (by simp [replacedNames])) fun _ =>
    .bind (retains_append (fun _ => .inr rfl) (by simp [replacedNames])) fun _ =>
    .forM fun _ _ => .bind (retains_append (fun _ => .inr rfl) (by simp [replacedNames])) fun _ =>
      retains_pure_unit _

/-- Lowering a broadcast leaves a tidy program tidy. -/
theorem retains_lowerBroadcast (broadcast : OpId) :
    RetainsBut S (broadcast + 1) (· = broadcast) (· = broadcast) (lowerBroadcast broadcast)
      noResult :=
  .bind (retains_sourceOperands _) fun source => .get_bind fun _ _ hlt hwalk =>
    .bind (.forM fun group _ => retains_insertPacketFlow (fun hS => hwalk hS broadcast rfl) source
      group) fun _ => retains_erase hlt rfl

/-- Lowering a multicast leaves a tidy program tidy. -/
theorem retains_lowerMulticast (multicast : OpId) :
    RetainsBut S (multicast + 1) (· = multicast) (· = multicast)
      (TileFlow.lowerMulticast multicast) noResult :=
  .bind (retains_sourceOperands _) fun _ => .get_bind fun _ _ hlt hwalk =>
    .bind (.forM fun _ _ => retains_insertBefore_pure (fun hS => hwalk hS multicast rfl)
      (by simp [replacedNames])) fun _ => retains_erase hlt rfl

/-! ### Operations that are replaced elsewhere in their device -/

/-- The core on a tile is in the body when its device is. -/
theorem retains_coreFor (hA : S → A device) (tile : String) :
    RetainsAll S n A (coreFor device tile) fun core id => id = core := by
  refine .get_bind fun p hp _ hwalk => ?_
  have hin : S → device ∈ p.walk := fun hS => hwalk hS device (hA hS)
  split
  · rename_i core hcore
    refine retains_pure fun hS id hid => ?_
    have hfound := List.mem_of_find?_eq_some hcore
    exact hid ▸ hp.sound.mem_walk_of_walkIn (hin hS) (List.mem_filter.1 hfound).1
  · exact .bind_result (retains_append hin (by simp [replacedNames])) fun core =>
      .bind (retains_append (fun _ => .inr rfl) (by simp [replacedNames])) fun _ =>
      retains_pure fun _ _ hid => .inr hid

/-- What is put at the end of a core of the body is in the body. -/
theorem retains_appendToCore (hA : S → A core) {op : Operation} (hop : op.name ∉ replacedNames) :
    RetainsAll S n A (appendToCore core op) fun new id => id = new := by
  refine .get_bind fun p hp _ hwalk => ?_
  have hin : S → core ∈ p.walk := fun hS => hwalk hS core (hA hS)
  split
  · rename_i last hlast
    split
    · refine retains_insertBefore (fun hS => ?_) hop
      exact hp.sound.mem_walk_of_walkIn (hin hS)
        (Program.mem_walkIn_of_mem_children (List.mem_of_getLast? hlast))
    · exact retains_append hin hop
  · exact retains_append hin hop

/-- Registering a process leaves a tidy program tidy. -/
theorem retains_registerProcess (device registration : OpId) :
    RetainsBut S (registration + 1) (· = device) (· = registration)
      (registerProcess device registration) noResult := by
  refine .get_bind fun _ _ hlt hwalk => .bind (retains_orFail _ _) fun _ =>
    .bind (retains_orFail _ _) fun _ => .bind (retains_orFail _ _) fun _ =>
    .bind (retains_orFail _ _) fun _ => .bind (retains_orFail _ _) fun _ =>
    .bind_result (retains_coreFor (fun hS => hwalk hS device rfl) _) fun _ =>
    .bind_result (retains_appendToCore (fun _ => .inr rfl) (by simp [replacedNames, loopOf]))
      fun _ => ?_
  exact .bind (retains_append (fun _ => .inr rfl) (by simp [replacedNames, accessOf])) fun _ =>
    .bind (retains_append (fun _ => .inr rfl) (by simp [replacedNames])) fun _ =>
    .bind (retains_append (fun _ => .inr rfl) (by simp [replacedNames, accessOf])) fun _ =>
    retains_erase hlt rfl

/-- Reading an endpoint leaves a tidy program tidy. -/
theorem retains_readEndpoint (op : Operation) (first : Nat) :
    RetainsAll S n A (readEndpoint op first) noResult :=
  .get_bind fun _ _ _ _ => .bind (retains_orFail _ _) fun _ => .bind (retains_orFail _ _) fun _ =>
    .bind (retains_orFail _ _) fun _ => .bind (retains_orFail _ _) fun _ => retains_pure_unit _

/-- Finding or creating the value of a tile leaves a tidy program tidy. -/
theorem retains_tileValue (hA : S → A device) (tile : Tile) :
    RetainsAll S n A (tileValue device tile) noResult := by
  refine .get_bind fun p _ _ hwalk => ?_
  split
  · exact retains_pure_unit _
  · exact .bind (retains_prepend (fun hS => hwalk hS device (hA hS)) (by simp [replacedNames]))
      fun _ => retains_pure_unit _

/-- The switchbox of a tile is in the body when its device is. -/
theorem retains_switchboxFor (hA : S → A device) (tile : Tile) :
    RetainsAll S n A (switchboxFor device tile) fun box id => id = box := by
  refine .get_bind fun p hp _ hwalk => ?_
  have hin : S → device ∈ p.walk := fun hS => hwalk hS device (hA hS)
  split
  · rename_i box hbox
    refine retains_pure fun hS id hid => ?_
    have hfound := List.mem_of_find?_eq_some hbox
    exact hid ▸ hp.sound.mem_walk_of_walkIn (hin hS) (List.mem_filter.1 hfound).1
  · exact .bind (retains_tileValue hin _) fun _ => retains_append hin (by simp [replacedNames])

/-- Adding a rule to a switchbox leaves a tidy program tidy. -/
theorem retains_addOnce {box : OpId} (hA : S → A box) {rule : Operation}
    (hop : rule.name ∉ replacedNames) : RetainsAll S n A (addOnce box rule) noResult := by
  refine .get_bind fun p _ _ hwalk => ?_
  dsimp only
  split
  · exact retains_pure_unit _
  · exact .bind (retains_append (fun hS => hwalk hS box (hA hS)) hop) fun _ => retains_pure_unit _

/-- A packet rule is no operation that is replaced. -/
theorem packetRule_notMem (id : Int) (input output : Channel) :
    (packetRule id input output).name ∉ replacedNames := by
  simp [replacedNames, packetRule, connection, Operation.withAttr]

/-- A connection is no operation that is replaced. -/
theorem connect_notMem (input output : Channel) :
    (connection "aie.connect" input output).name ∉ replacedNames := by
  simp [replacedNames, connection]

/-- Laying packet rules along a path leaves a tidy program tidy. -/
theorem retains_layPackets (hA : S → A device) (id : Int) (output input : Channel)
    (path : List Tile) : RetainsAll S n A (layPackets device id output input path) noResult := by
  induction path generalizing input with
  | nil => exact retains_pure_unit _
  | cons tile rest ih =>
      cases rest with
      | nil =>
          exact .bind_result (retains_switchboxFor hA _) fun _ =>
            retains_addOnce (fun _ => .inr rfl) (packetRule_notMem _ _ _)
      | cons next rest =>
          exact .bind_result (retains_switchboxFor hA _) fun _ =>
            .bind (retains_addOnce (fun _ => .inr rfl) (packetRule_notMem _ _ _)) fun _ =>
            (ih _).mono (Nat.le_refl _) (fun _ _ => .inl) fun _ h => h

/-- Routing a packet flow leaves a tidy program tidy. -/
theorem retains_routePacketFlow (device flow : OpId) :
    RetainsBut S (flow + 1) (· = device) (· = flow) (routePacketFlow device flow) noResult := by
  refine .get_bind fun p _ hlt hwalk => .bind (retains_orFail _ _) fun id => ?_
  dsimp only
  split
  · exact .bind (retains_readEndpoint _ _) fun source => .bind (retains_ensure _ _) fun _ =>
      .bind (.mapM fun _ _ => retains_readEndpoint _ _) fun _ =>
      .bind (retains_ensure _ _) fun _ => .bind (.forM fun _ _ =>
        .bind (retains_ensure _ _) fun _ =>
          retains_layPackets (fun hS => hwalk hS device rfl) _ _ _ _) fun _ =>
      retains_erase hlt rfl
  · exact retains_throw_bind _ _

/-- Laying connections along a path leaves a tidy program tidy. -/
theorem retains_layCircuit (hA : S → A device) (output input : Channel) (path : List Tile)
    (l : ChannelLedger) : RetainsAll S n A (layCircuit device output l input path) noResult := by
  induction path generalizing l input with
  | nil => exact retains_pure_unit _
  | cons tile rest ih =>
      cases rest with
      | nil =>
          exact .bind_result (retains_switchboxFor hA _) fun _ =>
            .bind (retains_append (fun _ => .inr rfl) (connect_notMem _ _)) fun _ =>
            retains_pure_unit _
      | cons next rest =>
          exact .bind (retains_orFail _ _) fun _ => .bind_result
            (retains_switchboxFor hA _) fun _ =>
            .bind (retains_append (fun _ => .inr rfl) (connect_notMem _ _)) fun _ =>
            (ih _ _).mono (Nat.le_refl _) (fun _ _ => .inl) fun _ h => h

/-- Routing a flow leaves a tidy program tidy. -/
theorem retains_routeCircuitFlow (device : OpId) (l : ChannelLedger) (flow : OpId) :
    RetainsBut S (flow + 1) (· = device) (· = flow) (routeCircuitFlow device l flow) noResult :=
  .get_bind fun _ _ hlt hwalk => .bind (retains_readEndpoint _ _) fun _ =>
    .bind (retains_readEndpoint _ _) fun _ => .bind (retains_ensure _ _) fun _ =>
    .bind (retains_ensure _ _) fun _ =>
    .bind (retains_layCircuit (fun hS => hwalk hS device rfl) _ _ _ _) fun _ =>
    .bind_after (retains_erase hlt rfl) fun _ => retains_pure_unit _

/-- Routing the flows of a device leaves a program tidy. -/
theorem tidyAt_routeCircuitFlows (hp : p.Tidy S) (hdevice : device ∈ p.walk) :
    TidyAt S p (TileFlow.routeCircuitFlows device) := by
  refine .get_bind (TidyAt.bind ?_ fun _ _ _ hq => hq)
  have hlt : ∀ id ∈ p.findIn device "aie.flow", id + 1 ≤ p.slots.size := fun id hid =>
    hp.sound.lt_size_of_walkIn (List.mem_filter.1 hid).1
  exact (RetainsBut.foldlM_erasing (A := fun _ => (· = device)) (hp.tree.nodup_findIn device _)
    hp (Nat.le_refl _) (fun _ _ _ x hx => by
      obtain rfl := hx
      exact ⟨hdevice, fun d hd _ => hp.tree.notMem_interval (List.mem_filter.1 hd).1⟩)
    (fun flow hflow l => (retains_routeCircuitFlow device l flow).mono (hlt flow hflow)
      (fun _ _ h => h) fun _ h => h) _).tidy

/-! ### Devices -/

namespace Stage

/-- What a stage does to a device of the body leaves a tidy program tidy. -/
theorem tidyAt_deviceAction {s : Stage} {f : OpId → Action Unit} (h : s.deviceAction? = some f)
    (hp : p.Tidy S) (hdevice : device ∈ p.walk) : TidyAt S p (f device) := by
  have hall {x : Action Unit} (hx : RetainsAll S 0 (fun _ => False) x noResult) : TidyAt S p x :=
    hx.tidyAt hp (Nat.zero_le _) fun _ _ h => h.elim
  cases s with
  | assignLockIds => cases h; exact hall (retains_assignLockIds device)
  | registerObjectFifos =>
      cases h
      exact tidyAt_forEach_device (retains_registerProcess device) hp hdevice _
  | lowerObjectFifos =>
      cases h
      exact tidyAt_forEach_replaced (by simp [replacedNames]) (retains_lowerObjectFifo device) hp
        hdevice
  | broadcastPackets =>
      cases h
      exact tidyAt_forEach_replaced (by simp [replacedNames]) retains_lowerBroadcast hp hdevice
  | routePacketFlows =>
      cases h
      exact tidyAt_forEach_device (retains_routePacketFlow device) hp hdevice _
  | lowerMulticast =>
      cases h
      exact tidyAt_forEach_replaced (by simp [replacedNames]) retains_lowerMulticast hp hdevice
  | assignBufferAddresses => cases h; exact hall (retains_assignBufferAddresses device)
  | routeCircuitFlows => cases h; exact tidyAt_routeCircuitFlows hp hdevice
  | lowerTransfers =>
      cases h
      exact tidyAt_forEach_replaced (by simp [replacedNames]) (retains_lowerTransfer device) hp
        hdevice
  | localizeLocks => cases h; exact hall (retains_localizeLocks device)
  | normalizeAddressSpaces => cases h; exact hall (retains_dropMemorySpaces device)
  | _ => cases h

/-- A stage on devices leaves a tidy program tidy: what it does to one device leaves the others at
the top. -/
theorem tidyAt_onEachDevice {s : Stage} {f : OpId → Action Unit} (h : s.deviceAction? = some f)
    (hp : p.Tidy S) : TidyAt S p (onEachDevice f) := by
  refine .get_bind (TidyAt.forM (I := fun rest q => ∀ d ∈ rest, d ∈ q.body.roots) hp
    (fun d hd => (List.mem_filter.1 hd).1) fun d rest q hI hq => ?_)
  have hd := Program.mem_walk_of_mem_roots (hI d List.mem_cons_self)
  refine ⟨tidyAt_deviceAction h hq hd, fun r hrun e he => ?_⟩
  have hspares := (confined_deviceAction h _ nothing q (Enclosure.encloses_below hq.tree hd)
    fun _ hid => hid.elim).1
  rw [hrun] at hspares
  rw [hspares.roots]
  exact hI e (.tail _ he)

end Stage

/-! ### Shape -/

/-- Renaming affine operations leaves a program tidy. -/
theorem tidyAt_lowerAffine (hp : p.Tidy S) : TidyAt S p lowerAffine := by
  have hname (op : Operation) : (op.renamed affineNames).name = op.name ∨
      (op.renamed affineNames).name ∉ replacedNames := by
    rcases op.renamed_affine with h | ⟨old, new, hmem, -, h⟩
    · exact .inl (by rw [h])
    · have hnew : ∀ e ∈ affineNames, e.2 ∉ replacedNames := by decide
      exact .inr (h ▸ hnew _ hmem)
  have hrename : ∀ (l : List OpId) (q : Program), q.Tidy S →
      (l.foldl (fun q id => q.modify id (·.renamed affineNames)) q).Tidy S := by
    intro l
    induction l with
    | nil => exact fun q hq => hq
    | cons id l ih => exact fun q hq => ih _ (hq.modify id hname)
  refine TidyAt.bind (hrename _ p hp) fun _ q _ hq => .get_bind ?_
  split
  · exact hq
  · exact hq

/-- Wrapping a program in a device leaves it tidy. -/
theorem tidyAt_wrapInDevice (hp : p.Tidy S) : TidyAt S p wrapInDevice := by
  rw [wrapInDevice]
  refine .get_bind ?_
  split
  · have hname : defaultDevice.name ∉ replacedNames := by decide
    have hinsert : TidyAt S p (modifyGet (·.insertAt none 0 defaultDevice) : Action OpId) :=
      hp.insertAt (fun _ => p.holds_none) 0 hname
    refine hinsert.bind fun device q h hq => ?_
    rw [runOn_modifyGet, Prod.mk.injEq, Except.ok.injEq, Program.fst_insertAt] at h
    obtain ⟨rfl, rfl⟩ := h
    refine tidyAt_moveAll hq ?_ ?_ fun id hid => ⟨?_, ?_⟩
    · rw [Program.body_insertAt_none]
      exact Forest.mem_roots_insertAt.2 (.inl rfl)
    · rwa [(Program.created_insertAt hp.sound none 0 defaultDevice).new p.holds_none]
    · exact Program.mem_walk_insertAt_none.2 (.inr (Program.mem_walk_of_mem_roots hid))
    · exact Nat.ne_of_lt (hp.sound.created id (Program.mem_walk_of_mem_roots hid))
  · exact hp

/-- Lowering one structured operation leaves a tidy program tidy. -/
theorem retains_lowerControl (id : OpId) : RetainsBut S n A G (lowerControl id) noResult := by
  refine .get_bind fun p _ _ _ => ?_
  dsimp only
  split
  · exact .bind (retains_ensure _ _) fun _ =>
      (retains_update _ fun _ => .inr (by simp [replacedNames])).mono (Nat.le_refl _)
        (fun _ _ h => h) fun _ h => h.elim
  · split
    · exact (retains_update _ fun _ => .inr (by simp [replacedNames])).mono (Nat.le_refl _)
        (fun _ _ h => h) fun _ h => h.elim
    · exact retains_pure_unit _

/-- Lowering structured operations leaves a tidy program tidy. -/
theorem retains_lowerStructured :
    RetainsBut S n A (fun _ => True) lowerStructured noResult :=
  .get_bind fun _ hp _ _ => .bind_after (.forM_loose fun id hid =>
      retains_erase (hp.sound.created id (List.mem_filter.1 hid).1) trivial) fun _ =>
    .get_bind fun _ _ _ _ => .forM_loose fun _ _ => retains_lowerControl _

/-! ### Cleaning up -/

/-- Erasing an operation unless it is erased leaves a tidy program tidy. -/
theorem retains_eraseLive {id : OpId} (hid : id < n) :
    RetainsBut S n A (fun _ => True) (eraseLive id) noResult := by
  refine .get_bind fun p _ hlt _ => ?_
  split
  · exact retains_erase (Nat.lt_of_lt_of_le hid hlt) trivial
  · exact retains_pure_unit _

/-- Dropping runtime operations leaves a tidy program tidy. -/
theorem retains_dropRuntime : RetainsBut S n A (fun _ => True) TileFlow.dropRuntime noResult := by
  refine .get_bind fun p hp _ _ => .forM_loose fun id hid => .get_bind fun q _ hlt _ => ?_
  split
  · exact retains_eraseLive (Nat.lt_of_lt_of_le (hp.sound.created id hid) hlt)
  · exact retains_pure_unit _

/-- Dropping terminators and unused declarations leaves a tidy program tidy. -/
theorem retains_dropUnused : RetainsBut S n A (fun _ => True) TileFlow.dropUnused noResult := by
  refine .get_bind fun p hp _ _ => .bind_after (.forM_loose fun id hid =>
      .get_bind fun q _ hlt _ => ?_) fun _ => .get_bind fun _ _ _ _ =>
    .get_bind fun r hr _ _ => .forM_loose fun id hid => .get_bind fun s _ hlt _ => ?_
  · dsimp only
    split
    · exact retains_eraseLive (Nat.lt_of_lt_of_le (hp.sound.created id hid) hlt)
    · exact retains_pure_unit _
  · split
    · exact retains_erase (Nat.lt_of_lt_of_le
        (hr.sound.created id (Program.mem_walk_of_mem_roots hid)) hlt) trivial
    · exact retains_pure_unit _

/-- Merging equal declarations and globals leaves a tidy program tidy. -/
theorem retains_mergeEqual : RetainsBut S n A (fun _ => True) TileFlow.mergeEqual noResult := by
  refine .get_bind fun p hp _ _ => .bind_after (.foldlM_loose (fun id hid seen => ?_) _) fun _ =>
    retains_pure_unit _
  have hlt := hp.sound.created id (Program.mem_walk_of_mem_roots hid)
  refine .get_bind fun q _ hle _ => ?_
  dsimp only
  split
  · exact retains_pure_unit _
  · split
    · exact .bind_after (retains_erase (Nat.lt_of_lt_of_le hlt hle) trivial) fun _ =>
        retains_pure_unit _
    · exact retains_pure_unit _

/-- Ending a function with a return leaves a tidy program tidy. -/
theorem retains_terminate {id : OpId} (hA : S → A id) :
    RetainsAll S n A (terminate id) noResult := by
  refine .get_bind fun p _ _ hwalk => ?_
  have happend : RetainsAll S p.slots.size (· ∈ p.walk) (do
      let _ ← Action.append id { name := "llvm.return" }) noResult :=
    .bind (retains_append (fun hS => hwalk hS id (hA hS)) (by simp [replacedNames])) fun _ =>
      retains_pure_unit _
  dsimp only
  split
  · split
    · split
      · exact retains_pure_unit _
      · exact happend
    · exact happend
  · exact retains_pure_unit _

/-- No name of the backend is that of an operation which is replaced where it is. -/
theorem notMem_of_backendName? {name lowered : String} (h : backendName? name = some lowered) :
    lowered ∉ replacedNames := fun hmem => by
  have hnone : ∀ e ∈ replacedNames, ¬ ['l', 'l', 'v', 'm', '.'] <+: e.toList := by decide +kernel
  exact hnone lowered hmem (prefix_of_backendName? h)

/-- Giving a backend name leaves a tidy program tidy. -/
theorem retains_lowerName (id : OpId) : RetainsAll S n A (lowerName id) noResult := by
  refine .get_bind fun p _ _ _ => ?_
  dsimp only
  intro q hq hn hA
  cases hname : backendName? (p.op id).name with
  | none => exact (retains_throw_bind _ _ : RetainsAll S _ _ _ noResult) q hq hn hA
  | some lowered =>
      exact retains_update id (fun _ => .inr (notMem_of_backendName? hname)) q hq hn hA

/-- Giving backend names leaves a tidy program tidy. -/
theorem retains_lowerNames : RetainsAll S n A TileFlow.lowerNames noResult :=
  .get_bind fun _ _ _ _ => .bind (.forM fun id _ => retains_lowerName id) fun _ =>
    .get_bind fun _ _ _ _ => .forM fun _ hid =>
      retains_terminate fun _ => Program.mem_walk_of_mem_roots hid

/-! ### Cores -/

/-- Lowering a lock use leaves a tidy program tidy. -/
theorem retains_lowerLockUse (intrinsics : String × String) (use : OpId) :
    RetainsAll S n A (lowerLockUse intrinsics use) noResult := by
  rw [lowerLockUse]
  refine .get_bind fun p _ _ _ => ?_
  dsimp only
  refine .bind (retains_orFail _ _) fun _ => .bind (retains_orFail _ _) fun _ => ?_
  split
  · exact .bind (retains_pure_unit _) fun _ =>
      retains_update _ fun _ => .inr (by simp [replacedNames])
  · split
    · exact .bind (retains_pure_unit _) fun _ =>
        retains_update _ fun _ => .inr (by simp [replacedNames])
    · exact retains_throw_bind _ _

/-- Lowering an operation of a core leaves a tidy program tidy. -/
theorem retains_lowerCoreOp (intrinsics : String × String) (symbols : BufferSymbols)
    (locals : List String) (tile : Tile) (id : OpId) :
    RetainsAll S n A (lowerCoreOp intrinsics symbols locals tile id) noResult := by
  rw [lowerCoreOp]
  refine .get_bind fun p _ _ _ => ?_
  dsimp only
  split
  · exact retains_lowerLockUse _ _
  · exact .bind (retains_of_eq fun _ => rfl) fun _ => retains_update _ fun _ => .inl rfl

variable {symbols : BufferSymbols}

/-- The operations of a core are moved into a new function before a device, and the core is
erased. -/
theorem tidyAt_outline (hp : p.Tidy S) (hdevice : device ∈ p.body.roots) (hcore : core ∈ p.walk)
    {function : Operation} (hname : function.name ∉ replacedNames) : TidyAt S p (do
      let function ← Action.insertBefore device function
      ((← get).children (some core)).forM fun child => Action.moveTo child function
      Action.erase core) := by
  have hinsert := (retains_insertBefore (S := S) (n := 0) (A := (· = device)) (fun _ => rfl)
    hname).tidyAt hp (Nat.zero_le _) fun _ _ h => h ▸ Program.mem_walk_of_mem_roots hdevice
  refine hinsert.bind fun _ q hrun hq => ?_
  obtain ⟨hroot, hstill, hnew, hchildren⟩ := hp.tree.insertFunction hdevice hcore function
  obtain ⟨i, hplace⟩ := Program.insertBefore_of_mem_roots hp.sound.toWellFormed hdevice function
  have hfunction : ((p.insertBefore device function).2.op p.slots.size).name ∉ replacedNames := by
    rwa [hplace, (Program.created_insertAt hp.sound none i function).new p.holds_none]
  rw [runOn_insertBefore, Prod.mk.injEq, Except.ok.injEq, hnew] at hrun
  obtain ⟨rfl, rfl⟩ := hrun
  refine .get_bind ((tidyAt_moveAll hq hroot hfunction hchildren).bind fun _ r hmoves hr => ?_)
  have hsize : r.slots.size = (p.insertBefore device function).2.slots.size :=
    forM_induction (I := fun s => s.slots.size = (p.insertBefore device function).2.slots.size)
      hmoves rfl fun id _ s t hs hmove => by
        rw [runOn_moveTo, Prod.mk.injEq] at hmove
        rw [← hmove.2, Program.size_moveTo, hs]
  exact hr.erase (hsize ▸ hq.sound.created core hstill)

/-- Lowering a core of a device at the top leaves a program tidy. -/
theorem tidyAt_lowerCore (hp : p.Tidy S) (hdevice : device ∈ p.body.roots) (hcore : core ∈ p.walk) :
    TidyAt S p (lowerCore device symbols core) := by
  rw [lowerCore]
  refine .get_bind (TidyAt.bind (by cases p.owningTile? core <;> exact hp) fun tile q hq _ => ?_)
  obtain ⟨-, rfl⟩ := orFail_ok.1 hq
  dsimp only
  refine TidyAt.bind ((RetainsBut.forM (S := S) (n := 0) (A := fun _ => False) fun id _ =>
    retains_lowerCoreOp _ _ _ _ id).tidyAt hp (Nat.zero_le _) fun _ _ h => h.elim)
    fun _ q hrun hq => ?_
  have hbody := body_lowerCoreOps hrun
  exact tidyAt_outline hq (hbody ▸ hdevice) (by rwa [Program.walk, hbody]) (by simp [replacedNames])

/-- Lowering the cores of a device one after the other leaves a program tidy. -/
theorem tidyAt_lowerAll (ho : p.Orderly) (hp : p.Tidy S) (hdevice : device ∈ p.body.roots) :
    TidyAt S p ((p.findIn device "aie.core").forM (lowerCore device symbols)) := by
  refine TidyAt.forM (I := fun rest q => q.Orderly ∧ p.CoresAhead rest q) hp
    ⟨ho, hp.tree.coresAhead hdevice⟩ fun core rest q hI hq => ?_
  obtain ⟨hoq, hahead⟩ := hI
  have hroot := hahead.roots device hdevice
  have hcore := (hahead.inner core List.mem_cons_self).1
  refine ⟨tidyAt_lowerCore hq hroot hcore, fun r hrun => ⟨?_, hahead.step hq.tree hdevice hrun⟩⟩
  exact ((safeAt_lowerCore hoq hroot hcore).of_ok hrun).1

/-- Putting the global of a buffer leaves a tidy program tidy. -/
theorem retains_insertGlobal (hA : S → A device) (symbols : BufferSymbols) (buffer : OpId) :
    RetainsAll S n A (insertGlobal device symbols buffer) noResult := by
  refine .get_bind fun p _ _ hwalk => ?_
  dsimp only
  split
  · exact retains_insertBefore_pure (fun hS => hwalk hS device (hA hS)) (by simp [replacedNames])
  · exact retains_pure_unit _

/-- Declaring an intrinsic leaves a tidy program tidy. -/
theorem retains_declareIntrinsic (hA : S → A device) (declared : List String) (intrinsic : String) :
    RetainsAll S n A (declareIntrinsic device declared intrinsic) noResult := by
  rw [declareIntrinsic]
  split
  · exact retains_pure_unit _
  · exact retains_insertBefore_pure hA (by simp [replacedNames])

/-- Replacing a device at the top leaves a program tidy. -/
theorem tidyAt_lowerDevice (ho : p.Orderly) (hp : p.Tidy S) (hdevice : device ∈ p.body.roots)
    (declared : List String) : TidyAt S p (lowerDevice declared device) := by
  have hrelies : ∀ {q : Program}, device ∈ q.body.roots → S → ∀ id, id = device → id ∈ q.walk :=
    fun hroot _ _ hid => hid ▸ Program.mem_walk_of_mem_roots hroot
  have hlt := hp.sound.created device (Program.mem_walk_of_mem_roots hdevice)
  refine .get_bind (TidyAt.bind ((RetainsBut.foldlM (S := S) (n := 0) (A := (· = device))
    (fun buffer _ symbols => retains_insertGlobal (A := (· = device)) (fun _ => rfl) symbols buffer)
    []).tidyAt hp (Nat.zero_le _) (hrelies hdevice)) fun symbols q hrun hq => ?_)
  have hglobals := ensures_foldlM ho (safe_insertGlobal hlt) (l := p.findIn device "aie.buffer")
    (a := []) fun _ _ _ _ _ => insertGlobal_keepsRoots
  obtain ⟨hoq, hpq⟩ := hglobals.1.of_ok hrun
  have hroot := hglobals.2 symbols q hrun device hdevice
  refine .get_bind ((tidyAt_lowerAll hoq hq hroot).bind fun _ r hcores hr => ?_)
  have hall : Ensures q ((q.findIn device "aie.core").forM (lowerCore device symbols))
      q.KeepsRoots := ensures_lowerAll hoq hroot
  obtain ⟨hor, hqr⟩ := hall.1.of_ok hcores
  have hroot' := hall.2 _ r hcores device hroot
  refine TidyAt.bind ((RetainsBut.foldlM (S := S) (n := 0) (A := (· = device))
    (fun intrinsic _ declared =>
      retains_declareIntrinsic (A := (· = device)) (fun _ => rfl) declared intrinsic)
        declared).tidyAt hr (Nat.zero_le _) (hrelies hroot')) fun declared' s hintrinsics hs => ?_
  have hltr := Nat.lt_of_lt_of_le hlt (Nat.le_trans hpq hqr)
  have hrs := ((ensures_foldlM hor (safe_declareIntrinsic hltr) (a := declared)
    (l := [(p.modelOf device).lockIntrinsics.1, (p.modelOf device).lockIntrinsics.2])
    fun _ _ _ _ _ => declareIntrinsic_keepsRoots).1.of_ok hintrinsics).2
  exact TidyAt.bind (hs.erase (Nat.lt_of_lt_of_le hltr hrs)) fun _ _ _ hlast => hlast

/-- Replacing the devices of a program leaves it tidy. -/
theorem tidyAt_lowerCores (ho : p.Orderly) (hp : p.Tidy S) : TidyAt S p TileFlow.lowerCores := by
  have hnodup : p.devices.Nodup := List.Pairwise.filter _ hp.tree.distinct_body.nodup_roots
  refine .get_bind (TidyAt.bind (TidyAt.foldlM (I := fun rest q => q.Orderly ∧ rest.Nodup ∧
    ∀ device ∈ rest, device ∈ q.body.roots) hp
    ⟨ho, hnodup, fun device hdevice => (List.mem_filter.1 hdevice).1⟩
    (fun device rest declared q hI hq => ?_) _) fun _ _ _ hq => hq)
  obtain ⟨hoq, hnodup, hroots⟩ := hI
  obtain ⟨hfresh, hnodup⟩ := List.nodup_cons.1 hnodup
  have hroot := hroots device List.mem_cons_self
  have hdevice := ensures_lowerDevice hoq hroot declared
  refine ⟨tidyAt_lowerDevice hoq hq hroot declared, fun declared' r hrun => ⟨?_, hnodup, ?_⟩⟩
  · have hsafe := hdevice.1.1
    rwa [hrun] at hsafe
  · exact fun e he => hdevice.2 declared' r hrun e (hroots e (.tail _ he)) fun heq =>
      hfresh (heq ▸ he)

/-! ### Stages -/

namespace Stage

/-- Every stage of the compiler leaves a tidy program tidy, whether it succeeds or gives up. -/
theorem tidy_run {s : Stage} (hs : s ∈ builtin) (ho : p.Orderly) (hp : p.Tidy S) :
    (s.run p).2.Tidy S := by
  have hall {x : Action Unit} {G : OpId → Prop}
      (hx : RetainsBut S 0 (fun _ => False) G x noResult) : TidyAt S p x :=
    hx.tidyAt hp (Nat.zero_le _) fun _ _ h => h.elim
  show TidyAt S p s.action
  cases hdevice : s.deviceAction? with
  | some f =>
      rw [action_of_deviceAction? hdevice]
      exact tidyAt_onEachDevice hdevice hp
  | none =>
      cases s with
      | lowerAffine => exact tidyAt_lowerAffine hp
      | canonicalizeDevice => exact tidyAt_wrapInDevice hp
      | lowerStructured => exact hall retains_lowerStructured
      | lowerCores => exact tidyAt_lowerCores ho hp
      | dropRuntime => exact hall retains_dropRuntime
      | dropUnused => exact hall retains_dropUnused
      | mergeEqual => exact hall retains_mergeEqual
      | lowerNames => exact hall retains_lowerNames
      | custom name scope action => simp [builtin] at hs
      | _ => cases hdevice

/-- What stages leave of a tidy program is tidy. -/
theorem runEach_tidy {stages : List Stage} (hstages : ∀ s ∈ stages, s ∈ builtin) (ho : p.Orderly)
    (hp : p.Tidy S) : (runEach stages p).Tidy S := by
  induction stages generalizing p with
  | nil => exact hp
  | cons s rest ih =>
      have hs := hstages s List.mem_cons_self
      exact ih (fun t ht => hstages t (.tail _ ht))
        (safe_action hs p ho (Nat.zero_le _)).1 (tidy_run hs ho hp)

end Stage

/-- A live operation was created. -/
theorem Program.lt_size_of_isLive {id : OpId} (h : p.isLive id = true) : id < p.slots.size := by
  refine Nat.lt_of_not_le fun hle => ?_
  rw [Program.isLive, Array.getElem?_eq_none hle] at h
  cases h

/-- A source is tidy: nothing of it is erased. -/
theorem Source.tidy_of_parse {source : String} (h : Source.parse source = .ok p) :
    p.Tidy p.Apart where
  tree := (Source.orderly_of_parse h).tree
  live id hid := Source.isLive_of_parse h ((Source.orderly_of_parse h).sound.created id hid)
  linked _ _ hid := Source.mem_walk_of_parse h (Program.lt_size_of_isLive hid)
  apart hS := hS

/-- **Stages lose no operation of a source whose replaced operations stand apart.** What stages of
the compiler leave of a source, in any order and whether they succeed or give up, has no erased
operation in its body. It has every other operation there, unless the source has a FIFO, a
broadcast, a multicast or a transfer below another one. -/
theorem Stage.runEach_live {source : String} (h : Source.parse source = .ok p)
    {stages : List Stage} (hstages : ∀ s ∈ stages, s ∈ builtin) :
    (∀ id ∈ (runEach stages p).walk, (runEach stages p).isLive id = true) ∧
      (p.Apart → ∀ id, (runEach stages p).isLive id = true ↔ id ∈ (runEach stages p).walk) := by
  have htidy := runEach_tidy hstages (Source.orderly_of_parse h) (Source.tidy_of_parse h)
  exact ⟨htidy.live, fun hapart id => ⟨htidy.linked hapart id, htidy.live id⟩⟩

/-- A multicast inside a FIFO, and one inside a core that a process is registered on. -/
def multicastSource : String :=
  "aie.device(ipu) \x7b %a = aie.tile(0, 2) %b = aie.tile(0, 3)\n" ++
  "aie.objectfifo(%a, %b) \x7bsize = 4, sym_name = of\x7d \x7b\n" ++
  "aiex.multicast(%a, DMA, 0) \x7b aiex.multi_dest(%b, DMA, 0) \x7d \x7d\n" ++
  "aie.core(%b) \x7b aiex.multicast(%a, DMA, 1) \x7b aiex.multi_dest(%b, DMA, 1) \x7d \x7d\n" ++
  "aie.objectfifo.register_process(@of, consume, @work) \x7d"

/-- The first multicast is erased with its FIFO, and the flow for the second one is in the core. -/
theorem Stage.runEach_live_multicast : ∃ p q, Source.parse multicastSource = .ok p ∧
    runEach Pipeline.canonicalize.stages p = q ∧ p.Apart ∧ (q.findAll "aie.flow").length = 2 ∧
    (∀ id ∈ q.walk, q.isLive id = true) ∧
    (p.Apart → ∀ id, q.isLive id = true ↔ id ∈ q.walk) := by
  have hsource : ∃ p, Source.parse multicastSource = .ok p ∧ p.Apart ∧
      ((runEach Pipeline.canonicalize.stages p).findAll "aie.flow").length = 2 :=
    exists_ok_of_any (by decide +kernel)
  obtain ⟨p, hparse, hapart, hflows⟩ := hsource
  exact ⟨p, _, hparse, rfl, hapart, hflows,
    runEach_live hparse (by simp [Pipeline.canonicalize, builtin])⟩

/-- A multicast inside another one. -/
def nestedMulticastSource : String :=
  "aie.device(ipu) \x7b %a = aie.tile(0, 2) %b = aie.tile(0, 3)\n" ++
  "aiex.multicast(%a, DMA, 0) \x7b aiex.multi_dest(%b, DMA, 0)\n" ++
  "aiex.multicast(%a, DMA, 1) \x7b aiex.multi_dest(%b, DMA, 1) \x7d \x7d \x7d"

/-- The flow that replaces the inner multicast is not erased, but no walk gets to it: it was put
before an operation that was erased with the outer one. -/
theorem Stage.runEach_live_nested : ∃ p, Source.parse nestedMulticastSource = .ok p ∧
    (∀ s ∈ [lowerMulticast], s ∈ builtin) ∧
    ∃ id, (runEach [lowerMulticast] p).isLive id = true ∧
      id ∉ (runEach [lowerMulticast] p).walk := by
  have hsource : ∃ p, Source.parse nestedMulticastSource = .ok p ∧
      (runEach [lowerMulticast] p).isLive 9 = true ∧
      9 ∉ (runEach [lowerMulticast] p).walk := exists_ok_of_any (by decide +kernel)
  obtain ⟨p, hparse, hlive, hlost⟩ := hsource
  exact ⟨p, hparse, by simp [builtin], 9, hlive, hlost⟩

end TileFlow
