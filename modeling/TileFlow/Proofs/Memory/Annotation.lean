import TileFlow.Proofs.Program.Dictionary
import TileFlow.Proofs.Stage.Action
import TileFlow.Proofs.Stage.Pipeline
import TileFlow.Stage.Basic

/-!
# Stages that annotate

The stages that resolve the lock uses of cores and that drop memory spaces change nothing but the
attributes of operations. All that is found through names, values and places is found as before. So
nothing of what the first one needs depends on what it writes, and it gets through exactly when
every lock use in a core names a lock with an identifier, on a tile at most one step from the core.

## Main definitions

* `Program.Annotated`: a program whose operations may have other attributes.
* `Program.namedLockId?`: the identifier of the lock that a lock use names.
* `Program.ReachesLock`: a value names a lock within reach of a tile.
* `Program.LocksInReach`: the lock uses in the cores of a device are in reach.

## Main results

* `localizeLocks_annotated`: every lock use in a core carries the identifier of its lock.
* `Stage.localizeLocks_iff`: when lock uses are resolved.
* `dropMemorySpaces_annotated`: buffers keep their names.
-/

namespace TileFlow

open TileFlow.Action

variable {p q r : Program} {R : Operation → Dictionary → Prop}

/-- A program whose operations may have other attributes, each as a relation tells. -/
structure Program.Annotated (p : Program) (R : Operation → Dictionary → Prop) (q : Program) :
    Prop where
  body : q.body = p.body
  detached : q.detached = p.detached
  size : q.slots.size = p.slots.size
  live : ∀ id, q.isLive id = p.isLive id
  op : ∀ id, ∃ d, q.op id = { p.op id with attributes := d } ∧ R (p.op id) d

namespace Program.Annotated

/-- A program annotates itself. -/
theorem refl (p : Program) (hR : ∀ op : Operation, R op op.attributes) : p.Annotated R p :=
  ⟨rfl, rfl, rfl, fun _ => rfl, fun _ => ⟨_, rfl, hR _⟩⟩

/-- One more change of attributes. -/
theorem modify (h : p.Annotated R r) (a : OpId) {k : Dictionary → Dictionary}
    (hk : R (p.op a) (k (r.op a).attributes)) :
    p.Annotated R (r.modify a fun op => { op with attributes := k op.attributes }) where
  body := h.body
  detached := h.detached
  size := by rw [size_modify, h.size]
  live id := by rw [isLive_modify, h.live]
  op id := by
    obtain ⟨d, hd, hR⟩ := h.op id
    by_cases hid : id = a
    · subst hid
      by_cases hsize : id < r.slots.size
      · rw [op_modify_self hsize]
        exact ⟨k (r.op id).attributes, by rw [hd], hk⟩
      · refine ⟨d, ?_, hR⟩
        rw [← hd, Program.op, Program.op, Array.getElem?_eq_none (Nat.le_of_not_lt hsize),
          Array.getElem?_eq_none (by simpa using hsize)]
    · exact ⟨d, by rw [op_congr (slot_modify_of_ne hid _), hd], hR⟩

/-- Changes of attributes one after the other. -/
theorem trans {R' R'' : Operation → Dictionary → Prop} (h : p.Annotated R q)
    (h' : q.Annotated R' r)
    (hR : ∀ (op : Operation) d e, R op d → R' { op with attributes := d } e → R'' op e) :
    p.Annotated R'' r where
  body := h'.body.trans h.body
  detached := h'.detached.trans h.detached
  size := h'.size.trans h.size
  live id := (h'.live id).trans (h.live id)
  op id := by
    obtain ⟨d, hd, hRd⟩ := h.op id
    obtain ⟨e, he, hRe⟩ := h'.op id
    rw [hd] at he hRe
    exact ⟨e, he, hR _ d e hRd hRe⟩

/-- The walk is the same. -/
theorem walk (h : p.Annotated R q) : q.walk = p.walk := by
  rw [Program.walk, h.body, Program.walk]

/-- Annotating keeps a program well-formed. -/
theorem wellFormed (h : p.Annotated R q) (hp : p.WellFormed) : q.WellFormed where
  distinct := h.body ▸ hp.distinct
  created id hid := by
    rw [h.walk] at hid
    rw [h.size]
    exact hp.created id hid

/-- What is below an operation is the same. -/
theorem below (h : p.Annotated R q) (id : OpId) : q.below id = p.below id := by
  rw [Program.below, h.body, h.detached, Program.below]

/-- The names are the same. -/
theorem name (h : p.Annotated R q) (id : OpId) : (q.op id).name = (p.op id).name := by
  obtain ⟨d, hd, -⟩ := h.op id
  rw [hd]

/-- The results are the same. -/
theorem result (h : p.Annotated R q) (id : OpId) : (q.op id).result = (p.op id).result := by
  obtain ⟨d, hd, -⟩ := h.op id
  rw [hd]

/-- The operands are the same. -/
theorem operands (h : p.Annotated R q) (id : OpId) : (q.op id).operands = (p.op id).operands := by
  obtain ⟨d, hd, -⟩ := h.op id
  rw [hd]

/-- The kinds are the same. -/
theorem is (h : p.Annotated R q) (id : OpId) (name : String) :
    (q.op id).is name = (p.op id).is name := by
  rw [Operation.is, h.name, Operation.is]

/-- The operations of a name below an operation are the same. -/
theorem findIn (h : p.Annotated R q) (root : OpId) (name : String) :
    q.findIn root name = p.findIn root name := by
  simp only [Program.findIn, Program.walkIn, h.below, h.is]

/-- The operations of a name are the same. -/
theorem findAll (h : p.Annotated R q) (name : String) : q.findAll name = p.findAll name := by
  simp only [Program.findAll, h.walk, h.is]

/-- The devices are the same. -/
theorem devices (h : p.Annotated R q) : q.devices = p.devices := by
  simp only [Program.devices, h.body, h.is]

/-- The defined values are the same. -/
theorem definedValues (h : p.Annotated R q) : q.definedValues = p.definedValues := by
  simp only [Program.definedValues, h.walk, h.result]

/-- Every value is defined by the same operation. -/
theorem definingOp? (h : p.Annotated R q) (v : String) : q.definingOp? v = p.definingOp? v := by
  simp only [Program.definingOp?, h.walk, h.result]

/-- Every operand names the same value. -/
theorem operandValue? (h : p.Annotated R q) (id : OpId) (i : Nat) :
    (q.op id).operandValue? i = (p.op id).operandValue? i := by
  rw [Operation.operandValue?, h.operands, Operation.operandValue?]

/-- Annotations other than of locks leave the lock identifiers. -/
theorem lockId? (h : p.Annotated R q) (id : OpId) : (q.op id).lockId? = (p.op id).lockId? := by
  simp only [Operation.lockId?, Operation.operandInt?, h.operands]

/-- A tile denotes the same coordinates. -/
theorem tile? (h : p.Annotated R q) (id : OpId) : (q.op id).tile? = (p.op id).tile? := by
  simp only [Operation.tile?, Operation.operandInt?, h.operands]

/-- Every value denotes the same tile. -/
theorem tileOf? (h : p.Annotated R q) (v : String) : q.tileOf? v = p.tileOf? v := by
  simp only [Program.tileOf?, h.definingOp?, h.is, h.tile?]

/-- Every operation belongs to the same tile. -/
theorem owningTile? (h : p.Annotated R q) (id : OpId) : q.owningTile? id = p.owningTile? id := by
  simp only [Program.owningTile?, h.operandValue?, h.definingOp?, h.is, h.tile?]
  simp only [funext h.tileOf?]

/-- The model of a device is the same. -/
theorem modelOf (h : p.Annotated R q) (device : OpId) : q.modelOf device = p.modelOf device := by
  simp only [Program.modelOf, Operation.operandText?, h.operands]

end Program.Annotated

/-! ### Lock uses -/

/-- The identifier of the lock that a lock use names. -/
def Program.namedLockId? (p : Program) (use : Operation) : Option Int :=
  ((use.operandValue? 0).bind p.definingOp?).bind fun lock => (p.op lock).lockId?

/-- A lock use is resolved to the identifier of the lock that it names. -/
theorem localizeUse_ok {tile : Tile} {use : OpId}
    (h : runOn (localizeUse tile use) p = (.ok (), q)) :
    ∃ n, p.namedLockId? (p.op use) = some n ∧
      q = p.modify use (·.withAttr "lock_id" (.int n)) := by
  rw [localizeUse, get_bind_ok] at h
  obtain ⟨value, hvalue, h⟩ := orFail_bind_ok.1 h
  obtain ⟨lock, hlock, h⟩ := orFail_bind_ok.1 h
  obtain ⟨n, hn, h⟩ := orFail_bind_ok.1 h
  obtain ⟨lockTile, -, h⟩ := orFail_bind_ok.1 h
  obtain ⟨-, h⟩ := ensure_bind_ok.1 h
  refine ⟨n, ?_, by simpa [eq_comm] using h⟩
  rw [Program.namedLockId?, hvalue, Option.bind_some, (Option.filter_eq_some_iff.1 hlock).1,
    Option.bind_some, hn]

/-- The attributes that a stage which resolves lock uses gives an operation. -/
def LockAnnotation (op : Operation) (d : Dictionary) : Prop :=
  op.is "aie.use_lock" = false → d = op.attributes

/-- The identifier of a lock named by an operation is the same. -/
theorem Program.Annotated.namedLockId? (h : p.Annotated R q) (id : OpId) :
    q.namedLockId? (q.op id) = p.namedLockId? (p.op id) := by
  simp only [Program.namedLockId?, h.operandValue?, h.lockId?]
  simp only [funext h.definingOp?]

/-- Whether a lock use carries the identifier of the lock that it names. -/
def Program.Resolved (p : Program) (use : OpId) (q : Program) : Prop :=
  ∃ n, p.namedLockId? (p.op use) = some n ∧ (q.op use).intAttr? "lock_id" = some n

/-- One more lock use is resolved. -/
theorem localizeUse_step {tile : Tile} {use : OpId} {s : Program}
    (hr : p.Annotated LockAnnotation r)
    (huse : use < p.slots.size ∧ (p.op use).is "aie.use_lock" = true)
    (h : runOn (localizeUse tile use) r = (.ok (), s)) :
    p.Annotated LockAnnotation s ∧ (∀ c, p.Resolved c r → p.Resolved c s) ∧ p.Resolved use s := by
  obtain ⟨n, hn, rfl⟩ := localizeUse_ok h
  rw [hr.namedLockId?] at hn
  have hself : p.Resolved use (r.modify use (·.withAttr "lock_id" (.int n))) := by
    refine ⟨n, hn, ?_⟩
    rw [Program.op_modify_self (hr.size ▸ huse.1)]
    simp [Operation.intAttr?, Operation.attr?, Operation.withAttr, Dictionary.get?_insert,
      Attribute.int?]
  refine ⟨hr.modify use (k := (·.insert "lock_id" (.int n)))
    fun hname => ?_, fun c hc => ?_, hself⟩
  · rw [huse.2] at hname
    cases hname
  · by_cases hcu : c = use
    · exact hcu ▸ hself
    · rwa [Program.Resolved, Program.op_congr (Program.slot_modify_of_ne hcu _)]

/-- The lock uses of a core are resolved. -/
theorem localizeCore_step (hp : p.WellFormed) {core : OpId} {s : Program} (hcore : core ∈ p.walk)
    (hr : p.Annotated LockAnnotation r) (h : runOn (localizeCore core) r = (.ok (), s)) :
    p.Annotated LockAnnotation s ∧ (∀ c, p.Resolved c r → p.Resolved c s) ∧
      ∀ c ∈ p.findIn core "aie.use_lock", p.Resolved c s := by
  rw [localizeCore, get_bind_ok] at h
  obtain ⟨tile, -, h⟩ := orFail_bind_ok.1 h
  rw [get_bind_ok, hr.findIn] at h
  have huses : ∀ c ∈ p.findIn core "aie.use_lock",
      c < p.slots.size ∧ (p.op c).is "aie.use_lock" = true := fun c hc => by
    obtain ⟨hc, hname⟩ := List.mem_filter.1 hc
    exact ⟨hp.created c (hp.mem_walk_of_walkIn hcore hc), hname⟩
  obtain ⟨hs, hkeep, hall⟩ := forM_reaches (D := fun c s => p.Resolved c s)
    (T := fun use c => c = use) h hr
    fun use huse r s hr hstep => by
      obtain ⟨hs, hkeep, hself⟩ := localizeUse_step hr (huses use huse) hstep
      exact ⟨hs, hkeep, fun c hc => hc ▸ hself⟩
  exact ⟨hs, hkeep, fun c hc => hall c hc c rfl⟩

/-- The lock uses of the cores of all devices are resolved, and nothing else changes. -/
theorem localizeLocks_annotated (hp : p.WellFormed)
    (h : runOn Stage.localizeLocks.action p = (.ok (), q)) :
    p.Annotated LockAnnotation q ∧ ∀ device ∈ p.devices, ∀ core ∈ p.findIn device "aie.core",
      ∀ use ∈ p.findIn core "aie.use_lock", p.Resolved use q := by
  rw [Stage.action, Stage.onEachDevice, get_bind_ok] at h
  have hstart := Program.Annotated.refl p (R := LockAnnotation) fun _ _ => rfl
  obtain ⟨hq, -, hall⟩ := forM_reaches (D := fun c s => p.Resolved c s)
    (T := fun device c => ∃ core ∈ p.findIn device "aie.core", c ∈ p.findIn core "aie.use_lock")
    h hstart fun device hdevice r s hr hstep => by
      rw [localizeLocks, get_bind_ok, hr.findIn] at hstep
      obtain ⟨hs, hkeep, hcores⟩ := forM_reaches (D := fun c s => p.Resolved c s)
        (T := fun core c => c ∈ p.findIn core "aie.use_lock") hstep hr
        fun core hcore r s hr hstep => by
          refine localizeCore_step hp ?_ hr hstep
          exact hp.mem_walk_of_walkIn (Program.mem_walk_of_mem_devices hdevice)
            (List.mem_filter.1 hcore).1
      refine ⟨hs, hkeep, fun c hc => ?_⟩
      obtain ⟨core, hcore, hc⟩ := hc
      exact hcores core hcore c hc
  exact ⟨hq, fun device hdevice core hcore use huse => hall device hdevice use ⟨core, hcore, huse⟩⟩

/-! ### Memory spaces -/

/-- The attributes that a stage which drops memory spaces gives an operation. -/
def SpaceAnnotation (op : Operation) (d : Dictionary) : Prop :=
  (op.is "aie.buffer" = false → d = op.attributes) ∧
    ∀ key, key ≠ "memory_space" → d.get? key = op.attributes.get? key

/-- Memory spaces are dropped, and nothing else changes. -/
theorem dropMemorySpaces_annotated
    (h : runOn Stage.normalizeAddressSpaces.action p = (.ok (), q)) :
    p.Annotated SpaceAnnotation q := by
  rw [Stage.action, Stage.onEachDevice, get_bind_ok] at h
  have hstart := Program.Annotated.refl p (R := SpaceAnnotation) fun _ =>
    ⟨fun _ => rfl, fun _ _ => rfl⟩
  refine forM_induction h hstart fun device _ r s hr hstep => ?_
  rw [dropMemorySpaces, get_bind_ok, hr.findIn] at hstep
  refine forM_induction hstep hr fun buffer hbuffer r s hr hstep => ?_
  obtain rfl : _ = s := by simpa using hstep
  refine hr.modify buffer (k := (·.erase "memory_space")) ⟨fun hname => ?_, fun key hkey => ?_⟩
  · rw [(List.mem_filter.1 hbuffer).2] at hname
    cases hname
  · obtain ⟨d, hd, -, hspace⟩ := hr.op buffer
    rw [Dictionary.get?_erase_of_ne hkey, hd]
    exact hspace key hkey

/-! ### Locks within reach -/

/-- As long as 64 bits hold it, the distance of two tiles is the number of steps between them. -/
theorem Tile.distance_eq {a b : Tile}
    (h : (a.column - b.column).natAbs + (a.row - b.row).natAbs < 0x8000000000000000) :
    a.distance b = (a.column - b.column).natAbs + (a.row - b.row).natAbs := by
  have hcolumn : Integer.Fits (a.column - b.column) ∧ a.column - b.column ≠ Integer.least := by
    simp only [Integer.Fits, Integer.least]; omega
  have hrow : Integer.Fits (a.row - b.row) ∧ a.row - b.row ≠ Integer.least := by
    simp only [Integer.Fits, Integer.least]; omega
  rw [distance, Integer.wrap_of_fits hcolumn.1, Integer.wrap_of_fits hrow.1,
    Integer.magnitude_of_fits hcolumn.1 hcolumn.2, Integer.magnitude_of_fits hrow.1 hrow.2,
    Integer.wrap_of_fits (by simp only [Integer.Fits]; omega)]

/-- A tile has no distance to itself. -/
@[simp] theorem Tile.distance_self (a : Tile) : a.distance a = 0 := by
  rw [distance_eq (by simp)]
  simp

/-- Whether a value names a lock that has an identifier and sits at most one step from a tile. -/
def Program.ReachesLock (p : Program) (value : String) (tile : Tile) : Prop :=
  ∃ lock n lockTile, p.definingOp? value = some lock ∧ (p.op lock).is "aie.lock" = true ∧
    (p.op lock).lockId? = some n ∧ p.owningTile? lock = some lockTile ∧ lockTile.distance tile ≤ 1

/-- Whether the cores of a device sit on tiles, and the locks that they use are within reach. -/
def Program.LocksInReach (p : Program) (device : OpId) : Prop :=
  ∀ core ∈ p.findIn device "aie.core", ∃ tile, p.owningTile? core = some tile ∧
    ∀ use ∈ p.findIn core "aie.use_lock", ∃ value,
      (p.op use).operandValue? 0 = some value ∧ p.ReachesLock value tile

/-- Which tiles reach a lock is the same. -/
theorem Program.Annotated.reachesLock (h : p.Annotated R r) (value : String) (tile : Tile) :
    r.ReachesLock value tile ↔ p.ReachesLock value tile := by
  simp only [Program.ReachesLock, h.definingOp?, h.is, h.lockId?, h.owningTile?]

/-- The use of a lock can be made local exactly if its tile reaches the lock. -/
theorem localizeUse_iff {tile : Tile} {use : OpId} :
    (∃ q, runOn (localizeUse tile use) p = (.ok (), q)) ↔
      ∃ value, (p.op use).operandValue? 0 = some value ∧ p.ReachesLock value tile := by
  rw [localizeUse]
  simp only [get_bind_ok, orFail_bind_ok, ensure_bind_ok, decide_eq_true_eq,
    Option.filter_eq_some_iff, runOn_update, Program.ReachesLock]
  constructor
  · rintro ⟨q, value, hvalue, lock, ⟨hlock, his⟩, n, hn, lockTile, htile, hreach, -⟩
    exact ⟨value, hvalue, lock, n, lockTile, hlock, his, hn, htile, hreach⟩
  · rintro ⟨value, hvalue, lock, n, lockTile, hlock, his, hn, htile, hreach⟩
    exact ⟨_, value, hvalue, lock, ⟨hlock, his⟩, n, hn, lockTile, htile, hreach, rfl⟩

/-- What the uses in a core need is the same while other uses are resolved. -/
theorem localizeCore_iff {core : OpId} (hp : p.WellFormed) (hcore : core ∈ p.walk)
    (hr : p.Annotated LockAnnotation r) :
    (∃ q, runOn (localizeCore core) r = (.ok (), q)) ↔ ∃ tile, p.owningTile? core = some tile ∧
      ∀ use ∈ p.findIn core "aie.use_lock", ∃ value,
        (p.op use).operandValue? 0 = some value ∧ p.ReachesLock value tile := by
  rw [localizeCore]
  simp only [get_bind_ok, orFail_bind_ok, hr.owningTile?, hr.findIn]
  rw [exists_comm]
  refine exists_congr fun tile => ?_
  rw [exists_and_left]
  refine and_congr_right fun _ => forM_exists_iff (I := p.Annotated LockAnnotation) hr
    (fun use _ s hs => ?_) fun use huse s t hs hrun => ?_
  · rw [localizeUse_iff, hs.operandValue?]
    simp only [hs.reachesLock]
  · obtain ⟨hin, his⟩ := List.mem_filter.1 huse
    exact (localizeUse_step hs ⟨hp.created use (hp.mem_walk_of_walkIn hcore hin), his⟩ hrun).1

/-- The locks of a device can be made local exactly if all its uses reach theirs. -/
theorem localizeLocks_device_iff {device : OpId} (hp : p.WellFormed) (hdevice : device ∈ p.walk)
    (hr : p.Annotated LockAnnotation r) :
    (∃ q, runOn (localizeLocks device) r = (.ok (), q)) ↔ p.LocksInReach device := by
  rw [localizeLocks]
  simp only [get_bind_ok, hr.findIn]
  have hcores : ∀ core ∈ p.findIn device "aie.core", core ∈ p.walk := fun core hcore =>
    hp.mem_walk_of_walkIn hdevice (List.mem_filter.1 hcore).1
  exact forM_exists_iff (I := p.Annotated LockAnnotation) hr
    (fun core hcore s hs => localizeCore_iff hp (hcores core hcore) hs)
    fun core hcore s t hs hrun => (localizeCore_step hp (hcores core hcore) hs hrun).1

/-- **When lock uses are resolved.** The stage gets through exactly when every core sits on a tile
and every lock use in it names a lock with an identifier, at most one step away. -/
theorem Stage.localizeLocks_iff (hp : p.WellFormed) :
    (∃ q, Stage.localizeLocks.run p = (.ok (), q)) ↔
      ∀ device ∈ p.devices, p.LocksInReach device := by
  simp only [Stage.run_eq_ok_iff]
  rw [Stage.action, onEachDevice]
  simp only [get_bind_ok]
  have hwalk : ∀ device ∈ p.devices, device ∈ p.walk := fun _ => Program.mem_walk_of_mem_devices
  refine forM_exists_iff (I := p.Annotated LockAnnotation) (.refl p fun _ _ => rfl)
    (fun device hdevice r hr => localizeLocks_device_iff hp (hwalk device hdevice) hr)
    fun device hdevice r s hr hrun => ?_
  rw [TileFlow.localizeLocks, get_bind_ok, hr.findIn] at hrun
  exact forM_induction hrun hr fun core hcore t u ht hstep =>
    (localizeCore_step hp (hp.mem_walk_of_walkIn (hwalk device hdevice) (List.mem_filter.1 hcore).1)
      ht hstep).1

end TileFlow
