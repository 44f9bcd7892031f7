import TileFlow.Proofs.Fifo.Channel
import TileFlow.Proofs.Memory.Annotation
import TileFlow.Proofs.Memory.LockIds
import TileFlow.Proofs.Stage.Frame
import TileFlow.Proofs.Stage.Hidden
import TileFlow.Proofs.Stage.Kept

/-!
# Cores near their FIFOs

The locks of a FIFO are put on its consumer tile, and its accesses, wherever in the device they are,
become uses of them. They are within reach of a core that accesses the FIFO if the consumer is at
most one step away. Where a core sits and what a value names is told by the program at the end,
which keeps what is defined on the way; which FIFO a name means is told by the program at the start,
as the FIFOs that are left are among those of the start, in the same order.

## Main definitions

* `Program.NearFifo`: a tile near the FIFO with a name.
* `Operation.Fits`: an operation that may be in a core on a tile.
* `Program.CoresServed`: all that is in the cores of a device fits there.
* `Program.LeavesCores`, `EditRule.LeavesCores`: edits that leave cores and what needs to be near.
* `Program.FifosLeft`: a device some of whose FIFOs are not replaced yet.

## Main results

* `insertLock_reaches`: the lock of a FIFO is within reach of the tiles near its consumer.
* `Program.CoresServed.lowerFifo`, `Program.CoresServed.lowerFifos`: one FIFO, and all of them.
-/

namespace TileFlow

open TileFlow.Action

variable {rule : EditRule} {base m p q r s : Program} {device fifo id : OpId} {tile : Tile}
  {near near' : String → Tile → Prop} {op : Operation}

/-! ### What may be in a core -/

/-- The tile on which the first operand of an operation puts it. -/
def Program.seat? (m : Program) (op : Operation) : Option Tile :=
  (op.operandValue? 0).bind m.placeOf?

/-- Whether the consumer of a FIFO is at most one step from a tile. -/
def Program.NearConsumer (m : Program) (fifo : Operation) (tile : Tile) : Prop :=
  ∃ value consumer, fifo.operandValue? 1 = some value ∧ m.placeOf? value = some consumer ∧
    consumer.distance tile ≤ 1

/-- Whether a tile is near the consumer of the first FIFO of a list with a name, if there is one. -/
def Program.NearFifo (base m : Program) (fifos : List OpId) (name : String) (tile : Tile) : Prop :=
  ∀ fifo, fifos.find? (fun id => (base.op id).textAttr? "sym_name" == some name) = some fifo →
    m.NearConsumer (base.op fifo) tile

/-- Whether an operation may be in a core on a tile: a lock that it uses is within reach, and a FIFO
that it accesses is near. -/
structure Operation.Fits (op : Operation) (m : Program) (near : String → Tile → Prop)
    (tile : Tile) : Prop where
  use : op.is "aie.use_lock" = true →
    ∃ value, op.operandValue? 0 = some value ∧ m.ReachesLock value tile
  access : ∀ name, (Access.of? op).isSome = true → op.operandSymbol? 0 = some name → near name tile

/-- The names of cores, of the operations in them that need to be near something, and of the
processes that are put in them. -/
def servedNames : List String :=
  ["aie.core", "aie.use_lock", "aie.objectfifo.acquire", "aie.objectfifo.release",
    "aie.objectfifo.register_process"]

/-- Accesses are among the operations that are served. -/
theorem Access.mem_servedNames (h : (Access.of? op).isSome = true) : op.name ∈ servedNames := by
  obtain ⟨access, haccess⟩ := Option.isSome_iff_exists.1 h
  have hname := Access.name_mem haccess
  simp only [List.mem_cons, List.not_mem_nil, or_false] at hname
  rcases hname with hname | hname <;> simp [servedNames, hname]

namespace Operation.Fits

/-- An operation that is not served fits everywhere. -/
theorem of_notMem (h : op.name ∉ servedNames) : op.Fits m near tile where
  use his := absurd (beq_iff_eq.1 his ▸ by decide) h
  access _ haccess _ := absurd (Access.mem_servedNames haccess) h

/-- Fitting is read off name, operands and attributes. -/
theorem congr {a b : Operation} (h : a.Fits m near tile) (hab : a.SameHeader b) :
    b.Fits m near tile := by
  rw [hab]
  exact ⟨h.use, h.access⟩

/-- An access of a FIFO fits as a use of one of its locks, too. -/
theorem lowered {name : String} {locks : LockPair} (h : op.Fits m near tile)
    (hlocks : near name tile →
      m.ReachesLock locks.producer tile ∧ m.ReachesLock locks.consumer tile)
    (hnear : ∀ other, other ≠ name → near other tile → near' other tile) :
    (lowerAccess name locks op).Fits m near' tile := by
  rw [lowerAccess]
  split
  · rename_i hnone
    exact ⟨h.use, fun _ haccess => absurd haccess (by simp [hnone])⟩
  · rename_i access haccess
    split
    · rename_i hname
      obtain ⟨hproducer, hconsumer⟩ := hlocks (h.access name (by simp [haccess]) hname)
      refine ⟨fun _ => ⟨(access.lowered locks op.accessSide).1, rfl, ?_⟩, fun _ hother => ?_⟩
      · cases access <;> cases op.accessSide <;> assumption
      · cases hother
    · rename_i hname
      exact ⟨h.use, fun other hother hsymbol =>
        hnear other (fun heq => hname (heq ▸ hsymbol)) (h.access other hother hsymbol)⟩

end Operation.Fits

/-! ### Cores -/

/-- Whether the cores of a device sit on tiles, and all that is in them fits there. -/
def Program.CoresServed (m : Program) (near : String → Tile → Prop) (device : OpId) (p : Program) :
    Prop :=
  ∀ core ∈ p.findIn device "aie.core", ∃ tile, m.seat? (p.op core) = some tile ∧
    ∀ id ∈ p.walkIn core, (p.op id).Fits m near tile

/-- At the end, the lock uses in cores are in reach. -/
theorem Program.CoresServed.locksInReach (h : m.CoresServed near device m) :
    m.LocksInReach device := fun core hcore => by
  obtain ⟨tile, hseat, hfits⟩ := h core hcore
  refine ⟨tile, (m.owningTile?_eq core).trans hseat, fun use huse => ?_⟩
  obtain ⟨hin, his⟩ := List.mem_filter.1 huse
  exact (hfits use hin).use his

/-- Whether cores, lock uses, accesses and processes of a device are ones of before, as they
were. -/
structure Program.LeavesCores (p : Program) (device : OpId) (q : Program) : Prop where
  evolves : p.Evolves q
  mem : device ∈ q.walk
  kept : ∀ id ∈ q.walkIn device, (q.op id).name ∈ servedNames →
    id < p.slots.size ∧ (p.op id).SameHeader (q.op id)

/-- Edits that give none of the names to an operation and leave those with one as they are. -/
def EditRule.LeavesCores (rule : EditRule) : Prop :=
  ∀ name ∈ servedNames, (rule.Keeps fun op => op.name ≠ name) ∧ rule.Spares name

namespace Program

/-- A served operation that is found afterwards was there before with the same header. -/
theorem LeavesCores.found {name : String} (h : p.LeavesCores device q) (hname : name ∈ servedNames)
    (hid : id ∈ q.findIn device name) :
    id ∈ p.findIn device name ∧ (p.op id).SameHeader (q.op id) := by
  obtain ⟨hin, his⟩ := List.mem_filter.1 hid
  obtain ⟨hlt, hheader⟩ := h.kept id hin (beq_iff_eq.1 his ▸ hname)
  exact ⟨List.mem_filter.2 ⟨h.evolves.mem_walkIn h.mem hin hlt, (hheader.is _).symm.trans his⟩,
    hheader⟩

/-- Served cores stay served while the cores are left. -/
theorem CoresServed.leaves (h : m.CoresServed near device p) (hl : p.LeavesCores device q) :
    m.CoresServed near device q := fun core hcore => by
  obtain ⟨hcorep, hheader⟩ := hl.found (by decide) hcore
  have hcoreq := (List.mem_filter.1 hcore).1
  obtain ⟨tile, hseat, hfits⟩ := h core hcorep
  refine ⟨tile, by rwa [seat?, hheader.operandValue?], fun id hid => ?_⟩
  by_cases hname : (q.op id).name ∈ servedNames
  · have hsound := hl.evolves.sound
    obtain ⟨hlt, hid'⟩ := hl.kept id (hsound.walkIn_trans hl.mem hcoreq hid) hname
    exact (hfits id (hl.evolves.mem_walkIn (hsound.mem_walk_of_walkIn hl.mem hcoreq) hid hlt)).congr
      hid'
  · exact .of_notMem hname

/-- Edits leave cores when they give none of the names to an operation and spare those with one. -/
theorem Edits.leavesCores (hrule : rule.LeavesCores) (hp : p.Sound) (h : p.Edits rule q)
    (hmem : device ∈ q.walk) : p.LeavesCores device q where
  evolves := h.evolves hp
  mem := hmem
  kept id hid hname := by
    obtain ⟨hkeeps, hspares⟩ := hrule _ hname
    obtain ⟨hlt, hold⟩ := h.old_of_name hkeeps hp ((h.sound hp).lt_size_of_walkIn hid) rfl
    exact ⟨hlt, h.spared hspares hp hlt (beq_iff_eq.2 hold)⟩

/-- With nothing changed below the device, the cores are left. -/
theorem SameBelow.leavesCores (h : p.SameBelow device q) (hp : p.Sound) (hmem : device ∈ q.walk) :
    p.LeavesCores device q where
  evolves := h.evolves
  mem := hmem
  kept id hid _ := by
    have hidp := (h.walkIn id).1 hid
    exact ⟨hp.lt_size_of_walkIn hidp, h.op id hidp ▸ .refl _⟩

/-- Erasing operations leaves the other cores. -/
theorem Cut.leavesCores (h : p.Cut id q) (hp : p.Sound) (hmem : device ∈ q.walk) :
    p.LeavesCores device q where
  evolves := h.evolves hp
  mem := hmem
  kept x hx _ := ⟨h.size ▸ h.sound.lt_size_of_walkIn hx, h.op x ▸ .refl _⟩

end Program

namespace Stage.Turn

variable {f : OpId → Action Unit}

/-- The turns of other devices before it leave the cores of a device. -/
theorem leaves_before (t : Turn rule f device p q) (hp : p.Sound) :
    p.LeavesCores device t.before :=
  t.waits.leavesCores hp (Program.mem_walk_of_mem_devices t.mem_before)

/-- The turns of other devices after it leave the cores of a device. -/
theorem leaves_after (t : Turn rule f device p q) : t.after.LeavesCores device q :=
  t.stays.leavesCores t.after_sound (Program.mem_walk_of_mem_devices t.mem_end)

end Stage.Turn

/-- Giving locks identifiers leaves the cores. -/
theorem EditRule.lockIds_leavesCores : EditRule.lockIds.LeavesCores := fun name hname =>
  ⟨lockIds_names.keeps_ne List.not_mem_nil, lockIds_spares (by rintro rfl; revert hname; decide)⟩

/-- Creating the parts of a FIFO leaves the cores. -/
theorem EditRule.fifoParts_leavesCores : EditRule.fifoParts.LeavesCores := fun name hname =>
  have hapart : ∀ name ∈ servedNames, name ∉ fifoPartNames := by decide
  ⟨fifoParts_names.keeps_ne (hapart name hname),
    fun _ _ _ hop => hop.elim, fun _ _ hop => hop.elim⟩

/-- The stages after the FIFOs leave the cores. -/
theorem EditRule.afterFifos_leavesCores : EditRule.afterFifos.LeavesCores := by
  have hkeeps : ∀ name ∈ servedNames, name ∉ ["aie.packet_flow", "aie.packet_source",
    "aie.packet_dest", "aie.tile", "aie.switchbox", "aie.packet_rule", "aie.flow", "cf.loop",
    "cf.cond"] := by decide
  have hspares : ∀ name ∈ servedNames, name ∉ ["aiex.broadcast_packet", "aie.packet_flow",
    "aiex.multicast", "aie.buffer", "scf.for", "scf.if", "scf.yield"] := by decide
  exact fun name hname =>
    ⟨afterFifos_keeps_ne (hkeeps name hname), afterFifos_spares (hspares name hname)⟩

/-! ### FIFOs -/

/-- The lock of a FIFO is in the open, as its FIFO is not hidden, so that it stays until the end. -/
theorem insertLock_reaches {shape : FifoShape} {suffix value : String} {initial : Int}
    {consumer : Tile} (hr : r.Sound) (hdevice : device ∈ r.devices)
    (hfifo : fifo ∈ r.findIn device "aie.objectfifo")
    (hhidden : r.HidesNone discardedNames ["aie.objectfifo"])
    (hrun : runOn (insertLock device fifo shape suffix initial) r = (.ok value, s))
    (hm : s.Edits .fromLockIds m) (hvalues : m.definedValues.Nodup)
    (hplace : m.placeOf? shape.consumer = some consumer) (hnear : consumer.distance tile ≤ 1) :
    m.ReachesLock value tile := by
  obtain ⟨hin, his⟩ := List.mem_filter.1 hfifo
  obtain ⟨-, id, n, -, -, -, hinsert⟩ := insertLock_ok hrun
  obtain ⟨b, i, hlocate, hbelow, -⟩ :=
    Program.locate?_below hr.toWellFormed (Program.mem_devices.1 hdevice).1 hin
  have hinto : r.insertBefore fifo (lockPart shape suffix value n initial) =
      r.insertAt (some b) i (lockPart shape suffix value n initial) := by
    rw [Program.insertBefore, hlocate]
  rw [runOn_insertBefore, hinto, Prod.mk.injEq] at hinsert
  obtain ⟨-, rfl⟩ := hinsert
  have hholds : r.Holds (some b) := fun a ha => by
    cases ha
    exact hr.mem_walk_of_below hbelow
      (hr.mem_walk_of_walkIn (Program.mem_walk_of_mem_devices hdevice) hin)
  have hnew := Program.created_insertAt hr (some b) i (lockPart shape suffix value n initial)
  have hop := hnew.new hholds
  have hlt := Nat.lt_of_lt_of_eq (Nat.lt_succ_self r.slots.size) hnew.size.symm
  have hopen := hhidden.created_unhidden hr (List.mem_singleton.2 (beq_iff_eq.1 his))
    (fun a ha _ => by cases ha; exact hbelow) hholds
    (by simp [lockPart, discardedNames, erasedNames]) hnew
  have hmem := (hopen.edits EditRule.fromLockIds_keepsValues hnew.sound hm).mem
  have hresult := hm.result_eq EditRule.fromLockIds_keepsValues hnew.sound hlt
  have hlock := hm.is_eq hnew.sound EditRule.fromLockIds_leavesLocks.isLock hlt
  have hoperands := hm.lock_operands EditRule.fromLockIds_leavesLocks hnew.sound hlt
    (by rw [hop]; rfl) (by rw [hop]; rfl)
  rw [hop] at hresult hlock hoperands
  refine ⟨r.slots.size, n, consumer,
    (Program.definingOp?_eq_some_iff hvalues).2 ⟨hmem, hresult⟩, hlock, ?_, ?_, hnear⟩
  · rw [Operation.lockId?, Operation.operandInt?, hoperands]
    rfl
  · rw [Program.owningTile?_eq, Operation.operandValue?, hoperands]
    exact hplace

/-- Accesses become uses of locks. -/
def EditRule.fifoUses : EditRule where
  creates _ _ _ := False
  changes := EditRule.fifos.changes
  erases _ _ := False

namespace Program

/-- Uses of FIFOs are lowered by the rules for FIFOs. -/
theorem Edits.fifos_of_uses (h : p.Edits .fifoUses q) : p.Edits .fifos q :=
  h.mono (fun _ _ _ hop => hop.elim) (fun _ _ _ hop => hop) fun _ _ hop => hop.elim

/-- A FIFO says the same until it is erased. -/
theorem Edits.fifo_sameHeader (hp : p.Sound) (h : p.Edits .fifos q) (hlt : fifo < p.slots.size)
    (his : (p.op fifo).is "aie.objectfifo" = true) : (p.op fifo).SameHeader (q.op fifo) := by
  refine h.sameHeader_of hp hlt fun r op hop hheader => ?_
  obtain ⟨name, locks, rfl⟩ := hop
  have hname : (r.op fifo).name = "aie.objectfifo" := hheader.name.trans (beq_iff_eq.1 his)
  rwa [lowerAccess_eq_self name locks (by rw [hname]; decide)]

/-- Lowering FIFOs belongs to the stages from the lock identifiers on. -/
theorem Edits.fromLockIds (h : p.Edits .fifos q) : p.Edits .fromLockIds q :=
  have hnumbering : p.Edits .numbering q := h.any (by simp)
  hnumbering.any (by simp)

/-- The uses that the accesses of a FIFO become fit if its locks are within reach of the tiles near
it. -/
theorem CoresServed.accesses {name : String} {locks : LockPair}
    (h : m.CoresServed near device p) (hp : p.Sound) (hdevice : device ∈ p.devices)
    (hlocks : ∀ tile, near name tile →
      m.ReachesLock locks.producer tile ∧ m.ReachesLock locks.consumer tile)
    (hnear : ∀ other tile, other ≠ name → near other tile → near' other tile)
    (hrun : runOn ((p.walkIn device).forM fun id => Action.update id (lowerAccess name locks)) p =
      (.ok (), q)) : m.CoresServed near' device q := by
  have hedits : p.Edits .fifoUses q := lowerAccesses_changes hp (fun _ _ => ⟨_, _, rfl⟩) hrun
  have hev := hedits.evolves hp
  have hsize : q.slots.size = p.slots.size := hedits.size_eq fun _ _ _ hop => hop
  have hwalk := mem_walk_of_mem_devices hdevice
  have hdeviceq := hedits.mem_walk (fun _ _ hop => hop) hp hwalk
  have hlowered := lowerAccesses_ok hp hdevice hrun
  have hold : ∀ a ∈ q.walk, ∀ id ∈ q.walkIn a, id ∈ p.walkIn a := fun a ha id hid =>
    hev.mem_walkIn ha hid (hsize ▸ hev.sound.lt_size_of_walkIn hid)
  intro core hcore
  obtain ⟨hin, his⟩ := List.mem_filter.1 hcore
  have hinp := hold device hdeviceq core hin
  rw [hlowered core hinp, is_lowerAccess _ _ _ (by decide)] at his
  have hsame : q.op core = p.op core := by
    rw [hlowered core hinp, lowerAccess_eq_self _ _ (by rw [beq_iff_eq.1 his]; decide)]
  obtain ⟨tile, hseat, hfits⟩ := h core (List.mem_filter.2 ⟨hinp, his⟩)
  refine ⟨tile, hsame ▸ hseat, fun id hid => ?_⟩
  have hidp := hold core (hev.sound.mem_walk_of_walkIn hdeviceq hin) id hid
  rw [hlowered id (hp.walkIn_trans hwalk hinp hidp)]
  exact (hfits id hidp).lowered (hlocks tile) fun other => hnear other tile

/-- A device in which some FIFOs of the base are still to be replaced. -/
structure FifosLeft (base : Program) (device : OpId) (fifos : List OpId) (r : Program) : Prop where
  sound : r.Sound
  values : r.definedValues.Nodup
  inDevice : device ∈ r.devices
  hidden : r.HidesNone discardedNames ["aie.objectfifo"]
  found : ∀ fifo ∈ fifos, fifo ∈ r.findIn device "aie.objectfifo" ∧
    (base.op fifo).SameHeader (r.op fifo)

namespace FifosLeft

variable {l : List OpId}

/-- A FIFO whose turn it is stands below its device. -/
theorem hosts (h : base.FifosLeft device (fifo :: l) r) (f : FifoRun device fifo r) :
    Hosts r device fifo f.shape := by
  obtain ⟨hin, his⟩ := List.mem_filter.1 (h.found fifo List.mem_cons_self).1
  exact ⟨h.sound, h.values, h.inDevice, h.sound.lt_size_of_walkIn hin, his, fun _ => hin,
    f.read.producer, f.read.consumer⟩

/-- The parts of a FIFO are created, its accesses become uses, and it is erased. -/
theorem steps (h : base.FifosLeft device (fifo :: l) r) (f : FifoRun device fifo r) :
    r.Edits .fifoParts f.streamed ∧ f.streamed.Edits .fifoUses f.accessed ∧
      f.accessed.Edits .fifos (f.accessed.erase fifo) := by
  have hhosts := h.hosts f
  obtain ⟨h₁, h₂, h₃, h₄⟩ := f.parts hhosts
  have hparts := ((h₁.trans h₂).trans h₃).trans h₄
  have huses : f.streamed.Edits .fifoUses f.accessed :=
    lowerAccesses_changes (hhosts.edits hparts).sound (fun _ _ => ⟨_, _, rfl⟩) f.accesses
  have haccessed := hparts.fifos.trans huses.fifos_of_uses
  have hheader := haccessed.fifo_sameHeader h.sound hhosts.created hhosts.isFifo
  exact ⟨hparts, huses, .single (.erase fifo
    (Nat.lt_of_lt_of_le hhosts.created (haccessed.size_le h.sound))
    ((hheader.is _).trans hhosts.isFifo))⟩

/-- No FIFO is hidden while FIFOs are lowered. -/
theorem hidden_of_edits (h : base.FifosLeft device l r) (hedits : r.Edits .fifos s) :
    s.HidesNone discardedNames ["aie.objectfifo"] :=
  h.hidden.edits EditRule.fifos_keepsValues (EditRule.fifos_names.exposes (by decide)) h.sound
    hedits

/-- One FIFO is replaced, and the others are still there, as it is not above any. -/
theorem step (h : base.FifosLeft device (fifo :: l) r) (hfresh : fifo ∉ l)
    (hrun : runOn (lowerObjectFifo device fifo) r = (.ok (), s)) :
    r.Edits .fifos s ∧ base.FifosLeft device l s := by
  obtain ⟨f, rfl⟩ := lowerObjectFifo_run hrun
  obtain ⟨hparts, huses, herase⟩ := h.steps f
  have hwalk := mem_walk_of_mem_devices h.inDevice
  have haccessed := hparts.fifos.trans huses.fifos_of_uses
  have hsound := haccessed.sound h.sound
  have hedits := haccessed.trans herase
  have hdevice := (hedits.mem_devices EditRule.fifos_sparesDevices h.sound).2 h.inDevice
  refine ⟨hedits, hedits.sound h.sound, hedits.nodup h.sound h.values, hdevice,
    h.hidden_of_edits hedits, fun x hx => ?_⟩
  have hthere : ∀ y ∈ fifo :: l, y ∈ f.accessed.walk ∧ (f.accessed.op y).name = "aie.objectfifo" :=
    fun y hy => by
      obtain ⟨hin, his⟩ := List.mem_filter.1 (h.found y hy).1
      refine ⟨huses.mem_walk (fun _ _ hop => hop) (hparts.sound h.sound)
        (hparts.mem_walk (fun _ _ hop => hop) h.sound (h.sound.mem_walk_of_walkIn hwalk hin)), ?_⟩
      exact (haccessed.fifo_sameHeader h.sound (h.sound.lt_size_of_walkIn hin) his).name.trans
        (beq_iff_eq.1 his)
  obtain ⟨hfifoWalk, hfifoName⟩ := hthere fifo List.mem_cons_self
  obtain ⟨hxWalk, hxName⟩ := hthere x (List.mem_cons_of_mem _ hx)
  have hstays : x ∈ (f.accessed.erase fifo).walk :=
    ((cut_erase hsound (hsound.created fifo hfifoWalk)).walk x).2
      ⟨hxWalk, fun heq => hfresh (heq ▸ hx), fun hbelow =>
        h.hidden_of_edits haccessed fifo hfifoWalk (by rw [hfifoName]; decide) x hbelow
          (List.mem_singleton.2 hxName)⟩
  obtain ⟨hxfound, hxheader⟩ := h.found x (List.mem_cons_of_mem _ hx)
  obtain ⟨hxin, hxis⟩ := List.mem_filter.1 hxfound
  have hxlt := h.sound.lt_size_of_walkIn hxin
  have hheader := hedits.fifo_sameHeader h.sound hxlt hxis
  refine ⟨List.mem_filter.2 ⟨?_, (hheader.is _).trans hxis⟩, hxheader.trans hheader⟩
  exact ((hedits.evolves h.sound).walkIn device (mem_walk_of_mem_devices hdevice) x hstays hxlt).2
    ⟨h.sound.created device hwalk, hxin⟩

/-- A lock of a FIFO is within reach of the tiles near its consumer. -/
theorem lock_reaches (h : base.FifosLeft device (fifo :: l) r) (f : FifoRun device fifo r)
    {u v : Program} {suffix value : String} {initial : Int} (hu : r.Edits .fifoParts u)
    (hrun : runOn (insertLock device fifo f.shape suffix initial) u = (.ok value, v))
    (hm : v.Edits .fromLockIds m) (hvalues : m.definedValues.Nodup)
    (hnear : m.NearConsumer (base.op fifo) tile) : m.ReachesLock value tile := by
  obtain ⟨hfound, hheader⟩ := h.found fifo List.mem_cons_self
  obtain ⟨hin, his⟩ := List.mem_filter.1 hfound
  have hhosts := (h.hosts f).edits hu
  have hwalk := hu.mem_walk (fun _ _ hop => hop) h.sound
    (h.sound.mem_walk_of_walkIn (mem_walk_of_mem_devices h.inDevice) hin)
  obtain ⟨value', consumer, hvalue, hplace, hdistance⟩ := hnear
  rw [← hheader.operandValue?, f.read.consumerValue, Option.some.injEq] at hvalue
  exact insertLock_reaches hhosts.sound hhosts.inDevice
    (List.mem_filter.2 ⟨hhosts.below hwalk, hhosts.isFifo⟩) (h.hidden_of_edits hu.fifos) hrun hm
    hvalues (hvalue ▸ hplace) hdistance

/-- A run over several FIFOs edits the program by the rules. -/
theorem edits (h : base.FifosLeft device l r) (hl : l.Nodup)
    (hrun : runOn (l.forM (lowerObjectFifo device)) r = (.ok (), s)) : r.Edits .fifos s := by
  induction l generalizing r with
  | nil =>
      obtain rfl := forM_nil_ok.1 hrun
      exact .refl
  | cons fifo l ih =>
      obtain ⟨t, hfifo, hrest⟩ := forM_cons_ok.1 hrun
      obtain ⟨hfresh, hnodup⟩ := List.nodup_cons.1 hl
      obtain ⟨hrt, ht⟩ := h.step hfresh hfifo
      exact hrt.trans (ih ht hnodup hrest)

end FifosLeft

section

variable {l : List OpId} {name other : String}

/-- The FIFO whose turn it is has the consumer the name tells. -/
theorem NearFifo.head (h : base.NearFifo m (fifo :: l) name tile)
    (hname : (base.op fifo).textAttr? "sym_name" = some name) :
    m.NearConsumer (base.op fifo) tile :=
  h fifo (List.find?_cons_of_pos (beq_iff_eq.2 hname))

/-- Another name tells one of the FIFOs that are left. -/
theorem NearFifo.tail (h : base.NearFifo m (fifo :: l) other tile)
    (hname : (base.op fifo).textAttr? "sym_name" = some name) (hother : other ≠ name) :
    base.NearFifo m l other tile := fun x hx => by
  refine h x ?_
  rwa [List.find?_cons_of_neg]
  rw [hname, beq_iff_eq, Option.some.injEq]
  exact Ne.symm hother

/-- A FIFO is replaced: its locks are within reach of the cores near it, so that its accesses may
become uses of them, and what is left in cores are accesses of other FIFOs. -/
theorem CoresServed.lowerFifo (h : m.CoresServed (base.NearFifo m (fifo :: l)) device r)
    (hleft : base.FifosLeft device (fifo :: l) r) (hvalues : m.definedValues.Nodup)
    (hrun : runOn (lowerObjectFifo device fifo) r = (.ok (), s)) (hm : s.Edits .fromLockIds m) :
    m.CoresServed (base.NearFifo m l) device s := by
  obtain ⟨f, rfl⟩ := lowerObjectFifo_run hrun
  obtain ⟨h₁, h₂, h₃, h₄⟩ := f.parts (hleft.hosts f)
  obtain ⟨hparts, huses, herase⟩ := hleft.steps f
  have hstreamed := hparts.sound hleft.sound
  have hdevice := (hparts.mem_devices EditRule.fifoParts_sparesDevices hleft.sound).2 hleft.inDevice
  have hname : (base.op fifo).textAttr? "sym_name" = some f.shape.name := by
    rw [← (hleft.found fifo List.mem_cons_self).2.textAttr?, f.read.name]
  -- What comes after a lock is what the stage does next, and the stages after it.
  have hafter : f.streamed.Edits .fromLockIds m :=
    (huses.fifos_of_uses.trans herase).fromLockIds.trans hm
  have hlocks : ∀ tile, base.NearFifo m (fifo :: l) f.shape.name tile →
      m.ReachesLock f.locks.producer tile ∧ m.ReachesLock f.locks.consumer tile :=
    fun tile hnear =>
      ⟨hleft.lock_reaches f h₁ f.producer ((h₃.trans h₄).fifos.fromLockIds.trans hafter) hvalues
        (hnear.head hname),
      hleft.lock_reaches f (h₁.trans h₂) f.consumer (h₄.fifos.fromLockIds.trans hafter) hvalues
        (hnear.head hname)⟩
  have hserved := h.leaves (hparts.leavesCores EditRule.fifoParts_leavesCores hleft.sound
    (mem_walk_of_mem_devices hdevice))
  have haccessed := hserved.accesses hstreamed hdevice hlocks
    (fun other tile hother hnear => hnear.tail hname hother) f.accesses
  have hsound := huses.fifos_of_uses.sound hstreamed
  have hlt := Nat.lt_of_lt_of_le (hleft.hosts f).created
    (Nat.le_trans (hparts.size_le hleft.sound) (huses.fifos_of_uses.size_le hstreamed))
  have hdevice' := ((huses.fifos_of_uses.trans herase).mem_devices EditRule.fifos_sparesDevices
    hstreamed).2 hdevice
  exact haccessed.leaves
    ((cut_erase hsound hlt).leavesCores hsound (mem_walk_of_mem_devices hdevice'))

/-- All FIFOs of a device are replaced. -/
theorem CoresServed.lowerFifos (h : m.CoresServed (base.NearFifo m l) device r)
    (hleft : base.FifosLeft device l r) (hl : l.Nodup) (hvalues : m.definedValues.Nodup)
    (hrun : runOn (l.forM (lowerObjectFifo device)) r = (.ok (), s)) (hm : s.Edits .fromLockIds m) :
    m.CoresServed (base.NearFifo m []) device s := by
  induction l generalizing r with
  | nil =>
      obtain rfl := forM_nil_ok.1 hrun
      exact h
  | cons fifo l ih =>
      obtain ⟨t, hfifo, hrest⟩ := forM_cons_ok.1 hrun
      obtain ⟨hfresh, hnodup⟩ := List.nodup_cons.1 hl
      obtain ⟨-, ht⟩ := hleft.step hfresh hfifo
      have htm := (ht.edits hnodup hrest).fromLockIds.trans hm
      exact ih (h.lowerFifo hleft hvalues hfifo htm) ht hnodup hrest

end

end Program

end TileFlow
