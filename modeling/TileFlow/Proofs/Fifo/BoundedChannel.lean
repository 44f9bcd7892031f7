import TileFlow.Proofs.Fifo.Channel
import TileFlow.Proofs.Fifo.Process
import TileFlow.Proofs.Fifo.Semaphore
import TileFlow.Proofs.Program.Dictionary
import TileFlow.Proofs.Stage.Kept
import TileFlow.Proofs.Stage.Action
import TileFlow.Proofs.Stage.Pipeline

/-!
# Object FIFOs as bounded channels

A FIFO that is right in a device, and whose name no other FIFO of the device has, becomes a pair of
locks that nothing else uses: the FIFOs replaced before it and after it leave its accesses, its
locks and the uses of them alone. So the processes on it keep within its depth.

## Main definitions

* `EditRule.channels`: the edits of FIFOs with some names.
* `Program.LockIn`: a lock right in a device that alone defines a value.
* `Program.FifoLowered`: a FIFO whose accesses have become uses of two locks.

## Main results

* `FifoRun.lowered`: what becomes of a FIFO when it is replaced.
* `lowerObjectFifos_channel`: what becomes of it when all FIFOs of the device are replaced.
* `lowerObjectFifos_bounded`: a FIFO is a bounded channel.
-/

namespace TileFlow

open TileFlow.Action

variable {p q r : Program} {device fifo id : OpId} {name : String} {N : String → Prop}

/-! ### Accesses and uses -/

namespace Operation

variable {op a b : Operation} {access : Access} {side : Side} {n : Int} {locks : LockPair}

/-- An access is read off name and operands. -/
theorem Accesses.congr (h : a.Accesses name access side n) (hname : b.name = a.name)
    (hoperands : b.operands = a.operands) : b.Accesses name access side n := by
  obtain ⟨haccess, hfifo, hside, hcount⟩ := h
  rw [Access.of?, Operation.is, Operation.is, ← hname] at haccess
  rw [operandSymbol?, ← hoperands] at hfifo
  rw [accessSide, operandText?, ← hoperands] at hside
  rw [operandInt?, ← hoperands] at hcount
  exact ⟨haccess, hfifo, hside, hcount⟩

/-- A use of the lock that a value names. -/
structure UsesLock (op : Operation) (value action : String) (n : Int) : Prop where
  name : op.name = "aie.use_lock"
  operands : op.operands = [.value value, .ident action, .int n]

/-- An access of a FIFO becomes a use of one of its locks. -/
theorem Accesses.usesLock (h : op.Accesses name access side n) (locks : LockPair) :
    (lowerAccess name locks op).UsesLock (access.lowered locks side).1
      (access.lowered locks side).2 n := by
  rw [lowerAccess, h.access]
  dsimp only
  rw [if_pos h.fifo, h.side, h.count]
  exact ⟨rfl, rfl⟩

/-- Another FIFO leaves an access alone. -/
theorem Accesses.lowerAccess_eq (h : op.Accesses name access side n) {other : String}
    (hne : other ≠ name) (locks : LockPair) : lowerAccess other locks op = op := by
  rw [lowerAccess, h.access]
  dsimp only
  rw [if_neg]
  rw [h.fifo, Option.some.injEq]
  exact hne.symm

/-- What has no name of an access is none. -/
theorem not_accesses
    (h : op.name ∉ ["aie.objectfifo.acquire", "aie.objectfifo.release"]) (access : Access)
    (side : Side) (n : Int) : ¬op.Accesses name access side n := fun haccess =>
  h (Access.name_mem haccess.access)

/-- A FIFO is no access. -/
theorem not_accesses_of_fifo
    (h : op.is "aie.objectfifo" = true) (access : Access) (side : Side) (n : Int) :
    ¬op.Accesses name access side n :=
  not_accesses (by rw [beq_iff_eq.1 h]; decide) access side n

/-- What accesses nothing is left as it is. -/
theorem lowerAccess_of_not_accesses
    (h : ∀ access side n, ¬op.Accesses name access side n) (locks : LockPair) :
    lowerAccess name locks op = op := by
  rw [lowerAccess]
  split
  · rfl
  · rename_i access haccess
    exact if_neg fun hname => h access op.accessSide _ ⟨haccess, hname, rfl, rfl⟩

end Operation

/-- An access is an operation of the program. -/
theorem Program.lt_size_of_accesses {access : Access} {side : Side} {n : Int}
    (h : (p.op id).Accesses name access side n) : id < p.slots.size := by
  refine Classical.byContradiction fun hlt => ?_
  have hnone : p.slots[id]? = none := Array.getElem?_eq_none (Nat.le_of_not_lt hlt)
  have haccess := h.access
  rw [Program.op, hnone] at haccess
  cases haccess

/-- The use of a lock, when an operation alone defines the value that names it. -/
theorem Program.Defines.lockUse?_eq {lock : OpId} {value action : String} {access : Access}
    {n : Int} (h : p.Defines lock value) (huse : (p.op id).UsesLock value action n)
    (haction : Access.ofAction? action = some access) :
    p.lockUse? id = some ⟨lock, access, n⟩ := by
  have hname : (p.op id).is "aie.use_lock" = true := beq_iff_eq.2 huse.name
  rw [lockUse?, if_pos hname]
  simp [Operation.operandValue?, Operation.operandText?, Operation.operandInt?, huse.operands,
    Attribute.value?, Attribute.text?, Attribute.int?, h.definingOp?, haction]

/-! ### Edits of FIFOs with some names -/

/-- FIFOs with some names are erased, parts are created and the accesses of these FIFOs become uses
of locks. -/
def EditRule.channels (N : String → Prop) : EditRule where
  creates _ _ op := op.name ∈ fifoPartNames
  changes p id op := ∃ name locks, N name ∧ op = lowerAccess name locks (p.op id)
  erases p id := (p.op id).is "aie.objectfifo" = true ∧
    ∃ name, N name ∧ (p.op id).textAttr? "sym_name" = some name

/-- Building channels leaves devices alone. -/
theorem EditRule.channels_sparesDevices (N : String → Prop) :
    (EditRule.channels N).SparesDevices where
  creates _ _ _ hop := Operation.not_is_of_mem hop (by decide)
  changes p id op hop := by
    obtain ⟨name, locks, -, rfl⟩ := hop
    exact is_lowerAccess name locks _ (by decide)
  erases _ _ hop := Operation.not_is_of_is hop.1 (by decide)

/-- More channels may be built than are. -/
theorem Program.Edits.channels_mono {N' : String → Prop} (h : p.Edits (.channels N) q)
    (hN : ∀ name, N name → N' name) : p.Edits (.channels N') q :=
  h.mono (fun _ _ _ hop => hop)
    (fun _ _ _ ⟨name, locks, hname, hop⟩ => ⟨name, locks, hN name hname, hop⟩)
    fun _ _ ⟨hfifo, name, hname, hop⟩ => ⟨hfifo, name, hN name hname, hop⟩

/-- An operation that is no access stays the same. -/
theorem Program.Edits.channels_sameHeader (hp : p.Sound) (h : p.Edits (.channels N) q)
    (hlt : id < p.slots.size)
    (hname : (p.op id).name ∉ ["aie.objectfifo.acquire", "aie.objectfifo.release"]) :
    (p.op id).SameHeader (q.op id) :=
  h.sameHeader_of hp hlt fun r op hop hr => by
    obtain ⟨other, locks, -, rfl⟩ := hop
    rw [← hr.name] at hname
    rwa [lowerAccess_eq_self other locks hname]

/-- An access of a FIFO with none of the names stays one. -/
theorem Program.Edits.channels_accesses {access : Access} {side : Side} {n : Int} (hp : p.Sound)
    (h : p.Edits (.channels N) q) (hN : ¬ N name)
    (hop : (p.op id).Accesses name access side n) : (q.op id).Accesses name access side n :=
  have hlt := lt_size_of_accesses hop
  h.forall_op (K := fun i op => i = id → op.Accesses name access side n) hp
    (fun _ _ _ hab hK hi => (hK hi).congr hab.name hab.operands)
    (fun _ _ _ hr _ _ hi => absurd (hi ▸ hlt) (Nat.not_lt.2 (hr.size_le hp)))
    (fun r i op _ hop hK hi => by
      obtain ⟨other, locks, hother, rfl⟩ := hop
      have hr := hK hi
      rwa [hr.lowerAccess_eq (fun heq => hN (heq ▸ hother)) locks])
    (fun _ _ hi => hi ▸ hop) id (Nat.lt_of_lt_of_le hlt (h.size_le hp)) rfl

/-- A use of a lock stays one while channels are built. -/
theorem Program.Edits.channels_usesLock {value action : String} {n : Int} (hp : p.Sound)
    (h : p.Edits (.channels N) q) (hlt : id < p.slots.size)
    (hop : (p.op id).UsesLock value action n) : (q.op id).UsesLock value action n :=
  have hheader := h.channels_sameHeader hp hlt (by simp [hop.name])
  ⟨hheader.name.trans hop.name, hheader.operands.trans hop.operands⟩

/-! ### Locks -/

/-- A lock right in a device that alone defines a value. -/
structure Program.LockIn (p : Program) (device lock : OpId) (value symbol : String)
    (initial : Int) : Prop where
  place : p.Outermost device lock
  defines : p.Defines lock value
  isLock : (p.op lock).is "aie.lock" = true
  symbol : (p.op lock).textAttr? "sym_name" = some symbol
  initial : (p.op lock).intAttr? "init" = some initial

/-- A lock of a FIFO is a lock of its device with the given initial value. -/
theorem Program.LockIn.hasLock {lock : OpId} {value symbol : String} {initial : Int}
    (h : p.LockIn device lock value symbol initial) : p.HasLock device lock symbol initial :=
  ⟨h.place.below, h.isLock, h.symbol, h.initial⟩

/-- A lock stays. -/
theorem Program.LockIn.edits {lock : OpId} {value symbol : String} {initial : Int}
    (h : p.LockIn device lock value symbol initial) (hp : p.Sound) (hdevice : device ∈ p.devices)
    (hedits : p.Edits (.channels N) q) : q.LockIn device lock value symbol initial := by
  have hheader : ∀ r, p.Edits (.channels N) r → (p.op lock).SameHeader (r.op lock) := fun r hr =>
    hr.channels_sameHeader hp (hp.created lock h.defines.mem)
      (by rw [beq_iff_eq.1 h.isLock]; decide)
  have hplace : ∀ r, p.Edits (.channels N) r → r.Outermost device lock := fun r hr =>
    hr.outermost (EditRule.channels_sparesDevices N) hp hdevice h.place fun s x hs _ hop => by
      rintro rfl
      have hlock := ((hheader s hs).is "aie.lock").trans h.isLock
      exact absurd (Operation.is_inj hop.1 hlock) (by decide)
  have hsame := hheader q hedits
  refine ⟨hplace q hedits, hedits.defines hp h.defines fun r hr => ?_,
    (hsame.is _).trans h.isLock, (hsame.textAttr? _).trans h.symbol,
    (hsame.intAttr? _).trans h.initial⟩
  exact (hr.sound hp).mem_walk_of_walkIn (mem_walk_of_mem_devices
    ((hr.mem_devices (EditRule.channels_sparesDevices N) hp).2 hdevice)) (hplace r hr).below

/-! ### One FIFO -/

/-- A slot is part of a channel. -/
theorem insertSlot_channels {shape : FifoShape} {i : Nat}
    (h : runOn (insertSlot fifo shape i) p = (.ok (), q)) : p.Edits (.channels N) q :=
  insertSlot_creates (fun _ op hop => by simp [EditRule.channels, fifoPartNames, beq_iff_eq.1 hop])
    h

/-- The initial value of a lock of a FIFO. -/
theorem intAttr?_lockPart (shape : FifoShape) (suffix value : String) (n initial : Int) :
    (lockPart shape suffix value n initial).intAttr? "init" = some initial := by
  rw [Operation.intAttr?, Operation.attr?, lockPart, Dictionary.get?_ofList]
  rfl

/-- A lock is part of a channel. -/
theorem insertLock_channels {shape : FifoShape} {suffix value : String} {initial : Int}
    (h : runOn (insertLock device fifo shape suffix initial) p = (.ok value, q)) :
    p.Edits (.channels N) q :=
  insertLock_creates (fun _ op hop => by simp [EditRule.channels, fifoPartNames, beq_iff_eq.1 hop])
    h

/-- A lock of a FIFO that is right in a device. -/
theorem insertLock_lockIn {shape : FifoShape} {suffix value : String} {initial : Int}
    (hp : p.Sound) (hdevice : device ∈ p.devices) (hfifo : p.Outermost device fifo)
    (h : runOn (insertLock device fifo shape suffix initial) p = (.ok value, q)) :
    q.LockIn device p.slots.size value s!"{shape.name}_{suffix}" initial := by
  obtain ⟨hfresh, id, n, -, -, -, hinsert⟩ := insertLock_ok h
  have hnew := hfifo.created hp hdevice (lockPart shape suffix value n initial)
  rw [runOn_insertBefore, Prod.mk.injEq] at hinsert
  obtain ⟨-, rfl⟩ := hinsert
  have hholds : p.Holds (some device) := fun a ha =>
    Option.some.inj ha ▸ Program.mem_walk_of_mem_devices hdevice
  have hop := hnew.new hholds
  refine ⟨hnew.outermost hp hdevice, hnew.defines hp hholds rfl hfresh, ?_, ?_, ?_⟩
  · rw [hop]
    rfl
  · rw [hop, textAttr?_lockPart]
  · rw [hop, intAttr?_lockPart]

/-- An allocation is part of a channel. -/
theorem insertAllocation_channels {name direction : String} {tile : Tile} {channel : Nat}
    (h : runOn (insertAllocation device fifo name direction tile channel) p = (.ok (), q)) :
    p.Edits (.channels N) q := by
  rw [insertAllocation, get_bind_ok] at h
  split at h
  · obtain ⟨_, r, hinsert, h⟩ := bind_ok.1 h
    obtain ⟨-, rfl⟩ := pure_ok.1 h
    exact insertBefore_edits hinsert (fun _ => by simp [EditRule.channels, fifoPartNames])
      (Program.fresh_of_none rfl)
  · obtain ⟨-, rfl⟩ := pure_ok.1 h
    exact .refl

/-- The flow is part of a channel. -/
theorem insertStream_channels {shape : FifoShape}
    (h : runOn (insertStream device fifo shape) p = (.ok (), q)) : p.Edits (.channels N) q := by
  rw [insertStream] at h
  split at h
  · rw [get_bind_ok] at h
    dsimp only at h
    obtain ⟨_, r, hinsert, h⟩ := bind_ok.1 h
    obtain ⟨_, s, hsource, hdestination⟩ := bind_ok.1 h
    have hr : p.Edits (.channels N) r := insertBefore_edits hinsert
      (fun _ => by simp [EditRule.channels, fifoPartNames]) (Program.fresh_of_none rfl)
    exact (hr.trans (insertAllocation_channels hsource)).trans
      (insertAllocation_channels hdestination)
  · obtain ⟨-, rfl⟩ := pure_ok.1 h
    exact .refl

/-- The parts of a FIFO are created. -/
theorem FifoRun.streamed_channels (f : FifoRun device fifo p) (hp : p.Sound) :
    p.Edits (.channels N) f.streamed :=
  have hslots : p.Edits (.channels N) f.buffered :=
    forM_edits hp f.slots fun _ _ _ _ _ _ => insertSlot_channels
  ((hslots.trans (insertLock_channels f.producer)).trans (insertLock_channels f.consumer)).trans
    (insertStream_channels f.stream)

/-- A FIFO replaced: two locks, their values and the uses that its accesses have become. -/
structure Program.FifoLowered (p q : Program) (device : OpId) (name : String) (depth : Int)
    (locks : LockPair) (producer consumer : OpId) : Prop where
  size : p.slots.size ≤ q.slots.size
  distinct : producer ≠ consumer
  producerLock : q.LockIn device producer locks.producer s!"{name}_prod_lock" depth
  consumerLock : q.LockIn device consumer locks.consumer s!"{name}_cons_lock" 0
  uses : ∀ id ∈ q.walkIn device, ∀ access side n, (p.op id).Accesses name access side n →
    (q.op id).UsesLock (access.lowered locks side).1 (access.lowered locks side).2 n

/-- A FIFO is erased when its parts are there and its accesses are uses of locks. -/
theorem FifoRun.channels (f : FifoRun device fifo p) (hp : p.Sound) (hlt : fifo < p.slots.size)
    (his : (p.op fifo).is "aie.objectfifo" = true) :
    f.streamed.Edits (.channels (· = f.shape.name)) (f.accessed.erase fifo) := by
  have hparts := f.streamed_channels (N := (· = f.shape.name)) hp
  have haccesses : f.streamed.Edits (.channels (· = f.shape.name)) f.accessed :=
    lowerAccesses_changes (hparts.sound hp) (fun _ _ => ⟨_, _, rfl, rfl⟩) f.accesses
  have hedits := hparts.trans haccesses
  have hheader := hedits.channels_sameHeader hp hlt (by rw [beq_iff_eq.1 his]; decide)
  exact haccesses.trans (.single (.erase fifo (Nat.lt_of_lt_of_le hlt (hedits.size_le hp))
    ⟨(hheader.is _).trans his, _, rfl, (hheader.textAttr? _).trans f.read.name⟩))

/-- The accesses of a FIFO right in a device become uses of its two locks. -/
theorem FifoRun.lowered (f : FifoRun device fifo p) (hp : p.Sound) (hdevice : device ∈ p.devices)
    (hfifo : p.Outermost device fifo) (his : (p.op fifo).is "aie.objectfifo" = true) :
    p.FifoLowered (f.accessed.erase fifo) device f.shape.name f.shape.depth f.locks
      f.buffered.slots.size f.produced.slots.size := by
  -- The parts are put before the FIFO, and leave it where it is.
  have hplace : ∀ t, p.Edits (.channels fun _ => False) t →
      t.Sound ∧ device ∈ t.devices ∧ t.Outermost device fifo := fun t ht =>
    have hspares := EditRule.channels_sparesDevices fun _ => False
    ⟨ht.sound hp, (ht.mem_devices hspares hp).2 hdevice,
      ht.outermost hspares hp hdevice hfifo fun _ _ _ _ ⟨_, _, hfalse, _⟩ => hfalse.elim⟩
  have h₁ : p.Edits (.channels fun _ => False) f.buffered :=
    forM_edits hp f.slots fun _ _ _ _ _ _ => insertSlot_channels
  have h₂ := h₁.trans (insertLock_channels f.producer)
  have h₃ := h₂.trans (insertLock_channels f.consumer)
  obtain ⟨hsound₁, hdevice₁, hfifo₁⟩ := hplace _ h₁
  obtain ⟨hsound₂, hdevice₂, hfifo₂⟩ := hplace _ h₂
  obtain ⟨hsound₃, hdevice₃, -⟩ := hplace _ h₃
  have h₄ := h₃.trans (insertStream_channels f.stream)
  obtain ⟨hsound₄, hdevice₄, -⟩ := hplace _ h₄
  have hq := f.channels hp (hp.lt_size_of_walkIn hfifo.below) his
  have h₃q := (insertStream_channels f.stream).trans hq
  have hproducer := insertLock_lockIn hsound₁ hdevice₁ hfifo₁ f.producer
  have hconsumer := insertLock_lockIn hsound₂ hdevice₂ hfifo₂ f.consumer
  rw [String.append_assoc] at hproducer hconsumer
  refine ⟨?_, Nat.ne_of_lt (hsound₂.created _ hproducer.defines.mem),
    hproducer.edits hsound₂ hdevice₂ ((insertLock_channels f.consumer).trans h₃q),
    hconsumer.edits hsound₃ hdevice₃ h₃q, fun id hid access side n haccess => ?_⟩
  · exact Nat.le_trans (h₄.size_le hp) (hq.size_le hsound₄)
  · have hdeviceq := (hq.mem_devices (EditRule.channels_sparesDevices _) hsound₄).2 hdevice₄
    have hid₄ := (hq.evolves hsound₄).mem_walkIn (Program.mem_walk_of_mem_devices hdeviceq) hid
      (Nat.lt_of_lt_of_le (Program.lt_size_of_accesses haccess) (h₄.size_le hp))
    rw [Program.op_erase, lowerAccesses_ok hsound₄ hdevice₄ f.accesses id hid₄]
    exact (h₄.channels_accesses hp (fun hfalse => hfalse) haccess).usesLock f.locks

/-- The FIFOs replaced before leave the accesses alone. -/
theorem Program.FifoLowered.before {depth : Int} {locks : LockPair} {producer consumer : OpId}
    (h : r.FifoLowered q device name depth locks producer consumer) (hp : p.Sound)
    (hedits : p.Edits (.channels (· ≠ name)) r) :
    p.FifoLowered q device name depth locks producer consumer :=
  { h with
    size := Nat.le_trans (hedits.size_le hp) h.size
    uses := fun id hid access side n haccess =>
      h.uses id hid access side n (hedits.channels_accesses hp (fun hne => hne rfl) haccess) }

/-- The FIFOs replaced after leave the locks and the uses of them alone. -/
theorem Program.FifoLowered.after {depth : Int} {locks : LockPair} {producer consumer : OpId}
    (h : p.FifoLowered r device name depth locks producer consumer) (hr : r.Sound)
    (hdevice : device ∈ r.devices) (hedits : r.Edits (.channels N) q) :
    p.FifoLowered q device name depth locks producer consumer where
  size := Nat.le_trans h.size (hedits.size_le hr)
  distinct := h.distinct
  producerLock := h.producerLock.edits hr hdevice hedits
  consumerLock := h.consumerLock.edits hr hdevice hedits
  uses id hid access side n haccess := by
    have hlt := Nat.lt_of_lt_of_le (lt_size_of_accesses haccess) h.size
    have hmem := (hedits.evolves hr).mem_walkIn (mem_walk_of_mem_devices
      ((hedits.mem_devices (EditRule.channels_sparesDevices N) hr).2 hdevice)) hid hlt
    exact hedits.channels_usesLock hr hlt (h.uses id hmem access side n haccess)

/-- A lowered FIFO is a channel between its two cores. -/
theorem Program.FifoLowered.channel {depth : Int} {locks : LockPair} {producer consumer : OpId}
    (h : p.FifoLowered q device name depth locks producer consumer) :
    p.Channel q device name depth producer consumer where
  distinct := h.distinct
  producerLock := h.producerLock.hasLock
  consumerLock := h.consumerLock.hasLock
  uses id hid access side n haccess := by
    have huse := h.uses id hid access side n haccess
    cases access <;> cases side
    · exact h.producerLock.defines.lockUse?_eq huse rfl
    · exact h.consumerLock.defines.lockUse?_eq huse rfl
    · exact h.consumerLock.defines.lockUse?_eq huse rfl
    · exact h.producerLock.defines.lockUse?_eq huse rfl

/-! ### All FIFOs of a device -/

/-- A FIFO with another name leaves what is of this one alone. -/
theorem lowerObjectFifo_channels (hp : p.Sound) (hlt : fifo < p.slots.size)
    (his : (p.op fifo).is "aie.objectfifo" = true)
    (hname : (p.op fifo).textAttr? "sym_name" ≠ some name)
    (h : runOn (lowerObjectFifo device fifo) p = (.ok (), q)) :
    p.Edits (.channels (· ≠ name)) q := by
  obtain ⟨f, rfl⟩ := lowerObjectFifo_run h
  refine ((f.streamed_channels hp).trans (f.channels hp hlt his)).channels_mono ?_
  rintro other rfl hother
  exact hname (hother ▸ f.read.name)

/-- FIFOs of a device with other names leave what is of this one alone, whatever FIFOs have been
replaced before. -/
theorem lowerOthers_channels {l : List OpId} (hp : p.Sound)
    (hl : ∀ x ∈ l, x < p.slots.size ∧ (p.op x).is "aie.objectfifo" = true ∧
      (p.op x).textAttr? "sym_name" ≠ some name)
    (hedits : p.Edits (.channels fun _ => True) r)
    (h : runOn (l.forM (lowerObjectFifo device)) r = (.ok (), q)) :
    r.Edits (.channels (· ≠ name)) q :=
  forM_edits (hedits.sound hp) h fun x hx s t hs hrs hrun => by
    obtain ⟨hlt, his, hname⟩ := hl x hx
    have hps := hedits.trans (hrs.channels_mono fun _ _ => trivial)
    have hheader := hps.channels_sameHeader hp hlt (by rw [beq_iff_eq.1 his]; decide)
    exact lowerObjectFifo_channels hs (Nat.lt_of_lt_of_le hlt (hps.size_le hp))
      ((hheader.is _).trans his) ((hheader.textAttr? _).symm ▸ hname) hrun

/-- A FIFO that is right in a device stays there while others are replaced. -/
theorem Program.Edits.channels_fifo (hp : p.Sound) (hdevice : device ∈ p.devices)
    (hfifo : p.Outermost device fifo) (his : (p.op fifo).is "aie.objectfifo" = true)
    (hname : (p.op fifo).textAttr? "sym_name" = some name)
    (h : p.Edits (.channels (· ≠ name)) q) :
    q.Outermost device fifo ∧ (p.op fifo).SameHeader (q.op fifo) := by
  have hheader : ∀ r, p.Edits (.channels (· ≠ name)) r → (p.op fifo).SameHeader (r.op fifo) :=
    fun r hr => hr.channels_sameHeader hp (hp.lt_size_of_walkIn hfifo.below)
      (by rw [beq_iff_eq.1 his]; decide)
  refine ⟨h.outermost (EditRule.channels_sparesDevices _) hp hdevice hfifo ?_, hheader q h⟩
  rintro r x hr - ⟨-, other, hother, hx⟩ rfl
  exact hother (Option.some.inj (hx.symm.trans (((hheader r hr).textAttr? _).trans hname)))

/-- A FIFO right in a device, whose name no other one has there, becomes a channel. -/
theorem lowerObjectFifos_channel (hp : p.Sound) (hdevice : device ∈ p.devices)
    (hfifo : p.Outermost device fifo) (his : (p.op fifo).is "aie.objectfifo" = true)
    (hname : (p.op fifo).textAttr? "sym_name" = some name)
    (hunique : ∀ x ∈ p.findIn device "aie.objectfifo",
      (p.op x).textAttr? "sym_name" = some name → x = fifo)
    (h : runOn (lowerObjectFifos device) p = (.ok (), q)) :
    1 ≤ ((p.op fifo).intAttr? "depth").getD 2 ∧ ∃ producer consumer,
      p.Channel q device name (((p.op fifo).intAttr? "depth").getD 2) producer consumer := by
  rw [lowerObjectFifos, get_bind_ok] at h
  obtain ⟨l₁, l₂, s, t, hne, hbefore, hown, hafter⟩ := forM_split
    (hp.toWellFormed.nodup_findIn (Program.mem_walk_of_mem_devices hdevice) "aie.objectfifo")
    (List.mem_filter.2 ⟨hfifo.below, his⟩) h
  have hothers : ∀ x ∈ l₁ ++ l₂, x < p.slots.size ∧ (p.op x).is "aie.objectfifo" = true ∧
      (p.op x).textAttr? "sym_name" ≠ some name := fun x hx => by
    obtain ⟨hin, hx⟩ := hne x hx
    obtain ⟨hbelow, hxname⟩ := List.mem_filter.1 hin
    exact ⟨hp.lt_size_of_walkIn hbelow, hxname, fun heq => hx (hunique x hin heq)⟩
  obtain ⟨f, rfl⟩ := lowerObjectFifo_run hown
  have hps := lowerOthers_channels hp
    (fun x hx => hothers x (List.mem_append_left _ hx)) .refl hbefore
  have hs := hps.sound hp
  have hdevices := (hps.mem_devices (EditRule.channels_sparesDevices _) hp).2 hdevice
  obtain ⟨hfifos, hheader⟩ := hps.channels_fifo hp hdevice hfifo his hname
  have hst := (f.streamed_channels hs).trans
    (f.channels hs (hs.lt_size_of_walkIn hfifos.below) ((hheader.is _).trans his))
  have hdevicet := (hst.mem_devices (EditRule.channels_sparesDevices _) hs).2 hdevices
  have htq := lowerOthers_channels hp (fun x hx => hothers x (List.mem_append_right _ hx))
    ((hps.channels_mono fun _ _ => trivial).trans (hst.channels_mono fun _ _ => trivial)) hafter
  obtain rfl : f.shape.name = name :=
    Option.some.inj (f.read.name.symm.trans ((hheader.textAttr? _).trans hname))
  have hlowered := ((f.lowered hs hdevices hfifos ((hheader.is _).trans his)).before hp hps).after
    (hst.sound hs) hdevicet htq
  have hdepth : ((p.op fifo).intAttr? "depth").getD 2 = f.shape.depth := by
    rw [f.read.depth, hheader.intAttr?]
  rw [hdepth]
  exact ⟨f.read.positive, _, _, hlowered.channel⟩

/-! ### Registered processes -/

/-- Processes that are registered leave the FIFOs of a device as they are. -/
theorem registerProcesses_fifo (hp : p.Sound) (hdevice : device ∈ p.devices)
    (hfifo : fifo ∈ p.children (some device)) (his : (p.op fifo).is "aie.objectfifo" = true)
    (h : p.Edits .processes q) :
    q.Outermost device fifo ∧ (p.op fifo).SameHeader (q.op fifo) ∧
      ∀ x ∈ q.findIn device "aie.objectfifo",
        x ∈ p.findIn device "aie.objectfifo" ∧ (p.op x).SameHeader (q.op x) := by
  have hout := Program.outermost_of_mem_children hp.toWellFormed hdevice hfifo
  have hlt := hp.lt_size_of_walkIn hout.below
  have hheader : ∀ x < p.slots.size, ∀ r, p.Edits .processes r →
      (p.op x).SameHeader (r.op x) := fun x hx r hr =>
    hr.sameHeader hp (fun _ _ _ hop => hop) hx
  refine ⟨h.outermost EditRule.processes_sparesDevices hp hdevice hout ?_, hheader fifo hlt q h,
    fun x hx => ?_⟩
  · rintro r x hr - hop rfl
    have hisr := ((hheader x hlt r hr).is _).trans his
    exact absurd (Operation.is_inj hop hisr) (by decide)
  · have hold := h.findIn_of_old (EditRule.processes_names.keeps_ne (by decide)) hp
      (Program.mem_walk_of_mem_devices
        ((h.mem_devices EditRule.processes_sparesDevices hp).2 hdevice)) hx
    exact ⟨hold, hheader x (hp.lt_size_of_walkIn (List.mem_filter.1 hold).1) q h⟩

/-- **Bounded channels.** Take a device in which processes are registered and FIFOs are replaced,
and a FIFO right in it, whose name no other one has there. Its accesses become uses of two locks,
and when these count as semaphores, any number of processes on either side, which acquire some slots
and later release as many, keep to the depth of the FIFO in any order of their steps. -/
theorem lowerObjectFifos_bounded (hp : p.Sound) (hdevice : device ∈ p.devices)
    (hfifo : fifo ∈ p.children (some device)) (his : (p.op fifo).is "aie.objectfifo" = true)
    (hname : (p.op fifo).textAttr? "sym_name" = some name)
    (hunique : ∀ x ∈ p.findIn device "aie.objectfifo",
      (p.op x).textAttr? "sym_name" = some name → x = fifo)
    (hregister : runOn (registerProcesses device) p = (.ok (), r))
    (hlower : runOn (lowerObjectFifos device) r = (.ok (), q)) :
    ∃ producer consumer,
      r.Channel q device name (((p.op fifo).intAttr? "depth").getD 2) producer consumer ∧
      ∀ (k : Nat) (sides : Fin k → Side) (s : ChannelState k),
        ChannelState.Run r q device name sides (.start q k) s →
        s.Bounded sides producer consumer (((p.op fifo).intAttr? "depth").getD 2) := by
  have hedits := registerProcesses_device hp hdevice hregister
  obtain ⟨hout, hheader, hfifos⟩ := registerProcesses_fifo hp hdevice hfifo his hedits
  have hdevicer := (hedits.mem_devices EditRule.processes_sparesDevices hp).2 hdevice
  obtain ⟨hdepth, producer, consumer, hchannel⟩ :=
    lowerObjectFifos_channel (hedits.sound hp) hdevicer hout ((hheader.is _).trans his)
      ((hheader.textAttr? _).trans hname)
      (fun x hx hnamex => hunique x (hfifos x hx).1
        (((hfifos x hx).2.textAttr? _).symm.trans hnamex)) hlower
  rw [hheader.intAttr?] at hdepth hchannel
  exact ⟨producer, consumer, hchannel, fun k sides s hrun =>
    ChannelState.bounded_of_run hchannel (Int.le_of_lt hdepth) hrun⟩

/-- A device with a FIFO of depth 3, a process that consumes and a core that produces two slots at a
time. -/
def channelSource : String :=
  "aie.device(ipu) \x7b\n%a = aie.tile(0, 2)\n%b = aie.tile(0, 3)\n" ++
  "aie.objectfifo(%a, %b) \x7bdepth = 3, size = 16, sym_name = f\x7d\n" ++
  "aie.core(%a) \x7b\naie.objectfifo.acquire(@f, produce, 2)\n" ++
  "aie.objectfifo.release(@f, produce, 2)\naie.end\n\x7d\n" ++
  "aie.objectfifo.register_process(@f, consume, @work)\n\x7d"

/-- The four accesses of the FIFO use its locks. -/
theorem lowerObjectFifos_bounded_work : ∃ p r q, Source.parse channelSource = .ok p ∧
    runOn (registerProcesses 0) p = (.ok (), r) ∧ runOn (lowerObjectFifos 0) r = (.ok (), q) ∧
    (q.findIn 0 "aie.use_lock").length = 4 ∧ ∃ producer consumer,
      r.Channel q 0 "f" 3 producer consumer ∧
      ∀ (k : Nat) (sides : Fin k → Side) (s : ChannelState k),
        ChannelState.Run r q 0 "f" sides (.start q k) s → s.Bounded sides producer consumer 3 := by
  have hsource : ∃ p, Source.parse channelSource = .ok p ∧ 0 ∈ p.devices ∧
      3 ∈ p.children (some 0) ∧ (p.op 3).is "aie.objectfifo" = true ∧
      (p.op 3).textAttr? "sym_name" = some "f" ∧ ((p.op 3).intAttr? "depth").getD 2 = 3 ∧
      p.findIn 0 "aie.objectfifo" = [3] ∧
      (runOn (registerProcesses 0) p).1 = .ok () ∧
      (runOn (lowerObjectFifos 0) (runOn (registerProcesses 0) p).2).1 = .ok () ∧
      ((runOn (lowerObjectFifos 0) (runOn (registerProcesses 0) p).2).2.findIn 0
        "aie.use_lock").length = 4 := exists_ok_of_any (by decide +kernel)
  obtain ⟨p, hp, hdevice, hfifo, his, hname, hdepth, honly, hregister, hlower, huses⟩ := hsource
  refine ⟨p, _, _, hp, Prod.ext hregister rfl, Prod.ext hlower rfl, huses, ?_⟩
  rw [← hdepth]
  refine lowerObjectFifos_bounded (Source.parse_ok hp).1 hdevice hfifo his hname (fun x hx _ => ?_)
    (Prod.ext hregister rfl) (Prod.ext hlower rfl)
  rw [honly] at hx
  exact List.mem_singleton.1 hx

end TileFlow
