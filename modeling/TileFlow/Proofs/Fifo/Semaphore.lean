import Mathlib.Algebra.Order.BigOperators.Group.Finset
import Mathlib.Data.Fintype.Basic
import Mathlib.Logic.Relation
import TileFlow.Fifo.Channel

/-!
# Locks as counting semaphores

The locks of a program count. Acquiring waits until the value of a lock is at least the count and
takes it off, and releasing adds it. Processes on a FIFO run the operations that its accesses have
become: each acquires some slots, and later releases as many, and the steps of all processes mix in
any order.

The two locks of a FIFO are crossed: a slot that a producer releases is one that a consumer may
acquire, and back. So the two values and what the processes hold always add up to the depth.

## Main definitions

* `Program.lockUse?`, `LockUse.run?`: what an operation does to a lock.
* `ChannelState.Step`: one step of a process on a FIFO.
* `Program.Channel`: a pair of locks that the accesses of a FIFO use.

## Main results

* `ChannelState.Balanced.step`: the invariant of the channel.
* `ChannelState.bounded_of_run`: the bounds in every state that the processes reach.
-/

namespace TileFlow

/-! ### Uses of locks -/

/-- The action on a lock with a name. -/
def Access.ofAction? : String → Option Access
  | "acquire_ge" => some .acquire
  | "release" => some .release
  | _ => none

/-- A use of a lock: the operation that defines the lock, the action and the count. -/
structure LockUse where
  lock : OpId
  action : Access
  count : Int
  deriving DecidableEq

/-- The use of a lock that an operation makes. -/
def Program.lockUse? (p : Program) (id : OpId) : Option LockUse :=
  if (p.op id).is "aie.use_lock" then do
    let lock ← ((p.op id).operandValue? 0).bind p.definingOp?
    let action ← ((p.op id).operandText? 1).bind Access.ofAction?
    let count ← (p.op id).operandInt? 2
    pure { lock, action, count }
  else none

/-- The values that the locks of a program start from. -/
def Program.lockStart (p : Program) (lock : OpId) : Int :=
  ((p.op lock).intAttr? "init").getD 0

/-- The values after a use of a lock, unless it has to wait. -/
def LockUse.run? (use : LockUse) (values : OpId → Int) : Option (OpId → Int) :=
  match use.action with
  | .acquire =>
    if use.count ≤ values use.lock then
      some (Function.update values use.lock (values use.lock - use.count))
    else none
  | .release => some (Function.update values use.lock (values use.lock + use.count))

/-! ### Processes on a FIFO -/

/-- An access of a FIFO on a side, for a number of slots. -/
structure Operation.Accesses (op : Operation) (name : String) (access : Access) (side : Side)
    (n : Int) : Prop where
  access : Access.of? op = some access
  fifo : op.operandSymbol? 0 = some name
  side : op.accessSide = side
  count : (op.operandInt? 2).getD 1 = n

/-- The state of a FIFO with `k` processes: the values of the locks, what each process holds, the
slots that the producers have released and the ones that the consumers have acquired. -/
structure ChannelState (k : Nat) where
  values : OpId → Int
  held : Fin k → Option Int
  released : Int
  acquired : Int

namespace ChannelState

variable {k : Nat} {p q : Program} {device : OpId} {name : String} {sides : Fin k → Side}
  {s t : ChannelState k} {producer consumer : OpId} {depth : Int}

/-- The state in which no process has done anything. -/
def start (q : Program) (k : Nat) : ChannelState k where
  values := q.lockStart
  held _ := none
  released := 0
  acquired := 0

/-- The slots that the processes of a side hold. -/
def heldBy (sides : Fin k → Side) (held : Fin k → Option Int) (side : Side) : Int :=
  ∑ i with sides i = side, (held i).getD 0

/-- One step of a process: it runs what has become of an access of `p` in the device of `q`. It
acquires when it holds nothing, and releases as much as it holds. -/
inductive Step (p q : Program) (device : OpId) (name : String) (sides : Fin k → Side)
    (s : ChannelState k) : ChannelState k → Prop
  | acquire (i : Fin k) (id : OpId) (n : Int) (values : OpId → Int) (idle : s.held i = none)
      (nonneg : 0 ≤ n) (inDevice : id ∈ q.walkIn device)
      (access : (p.op id).Accesses name .acquire (sides i) n)
      (run : (q.lockUse? id).bind (·.run? s.values) = some values) :
      Step p q device name sides s
        { values
          held := Function.update s.held i (some n)
          released := s.released
          acquired := s.acquired + if sides i = .consume then n else 0 }
  | release (i : Fin k) (id : OpId) (n : Int) (values : OpId → Int) (holds : s.held i = some n)
      (inDevice : id ∈ q.walkIn device)
      (access : (p.op id).Accesses name .release (sides i) n)
      (run : (q.lockUse? id).bind (·.run? s.values) = some values) :
      Step p q device name sides s
        { values
          held := Function.update s.held i none
          released := s.released + if sides i = .produce then n else 0
          acquired := s.acquired }

/-- Steps of the processes in any order. -/
abbrev Run (p q : Program) (device : OpId) (name : String) (sides : Fin k → Side) :
    ChannelState k → ChannelState k → Prop :=
  Relation.ReflTransGen (Step p q device name sides)

end ChannelState

/-! ### Channels -/

/-- The lock of a pair that an access on a side uses. -/
def Access.lockOf (producer consumer : OpId) : Access → Side → OpId
  | .acquire, .produce => producer
  | .acquire, .consume => consumer
  | .release, .produce => consumer
  | .release, .consume => producer

/-- A lock of a device with a symbol name and an initial value. -/
structure Program.HasLock (q : Program) (device lock : OpId) (symbol : String) (initial : Int) :
    Prop where
  inDevice : lock ∈ q.walkIn device
  isLock : (q.op lock).is "aie.lock" = true
  symbol : (q.op lock).textAttr? "sym_name" = some symbol
  initial : (q.op lock).intAttr? "init" = some initial

/-- A pair of locks of a device of `q` that the accesses of a FIFO in `p` have become uses of. -/
structure Program.Channel (p q : Program) (device : OpId) (name : String) (depth : Int)
    (producer consumer : OpId) : Prop where
  distinct : producer ≠ consumer
  producerLock : q.HasLock device producer s!"{name}_prod_lock" depth
  consumerLock : q.HasLock device consumer s!"{name}_cons_lock" 0
  uses : ∀ id ∈ q.walkIn device, ∀ access side n, (p.op id).Accesses name access side n →
    q.lockUse? id = some ⟨access.lockOf producer consumer side, access, n⟩

namespace ChannelState

variable {k : Nat} {p q : Program} {device : OpId} {name : String} {sides : Fin k → Side}
  {s t : ChannelState k} {producer consumer : OpId} {depth : Int}

/-- What a bounded channel with a depth keeps to. -/
structure Bounded (sides : Fin k → Side) (producer consumer : OpId) (depth : Int)
    (s : ChannelState k) : Prop where
  total : s.values producer + s.values consumer + heldBy sides s.held .produce +
    heldBy sides s.held .consume = depth
  producer_nonneg : 0 ≤ s.values producer
  consumer_nonneg : 0 ≤ s.values consumer
  heldBy_nonneg : ∀ side, 0 ≤ heldBy sides s.held side
  acquired_le : 0 ≤ s.released - s.acquired
  released_le : s.released - s.acquired ≤ depth

/-- The invariant of a channel: the consumer lock has the slots that producers have released and
consumers have not acquired yet. -/
structure Balanced (sides : Fin k → Side) (producer consumer : OpId) (depth : Int)
    (s : ChannelState k) : Prop where
  total : s.values producer + s.values consumer + heldBy sides s.held .produce +
    heldBy sides s.held .consume = depth
  producer_nonneg : 0 ≤ s.values producer
  consumer_nonneg : 0 ≤ s.values consumer
  held_nonneg : ∀ i n, s.held i = some n → 0 ≤ n
  filled : s.released - s.acquired = s.values consumer

/-- What the processes of one side hold is never negative. -/
theorem heldBy_nonneg {held : Fin k → Option Int} (h : ∀ i n, held i = some n → 0 ≤ n)
    (side : Side) : 0 ≤ heldBy sides held side := by
  refine Finset.sum_nonneg fun i _ => ?_
  rcases hi : held i with _ | n
  · exact Int.le_refl 0
  · exact h i n hi

/-- A balanced state is within the depth. -/
theorem Balanced.bounded (h : s.Balanced sides producer consumer depth) :
    s.Bounded sides producer consumer depth := by
  have hproduce : 0 ≤ heldBy sides s.held .produce := heldBy_nonneg h.held_nonneg _
  have hconsume : 0 ≤ heldBy sides s.held .consume := heldBy_nonneg h.held_nonneg _
  obtain ⟨htotal, hproducer, hconsumer, hheld, hfilled⟩ := h
  exact ⟨htotal, hproducer, hconsumer, heldBy_nonneg hheld, by omega, by omega⟩

/-- What the processes of a side hold when one of them acquires or releases. -/
theorem heldBy_update (held : Fin k → Option Int) (i : Fin k) (h : Option Int) (side : Side) :
    heldBy sides (Function.update held i h) side =
      heldBy sides held side + if sides i = side then h.getD 0 - (held i).getD 0 else 0 := by
  rw [heldBy, heldBy]
  by_cases hside : sides i = side
  · have hmem : i ∈ Finset.univ.filter fun j => sides j = side := by simp [hside]
    have hrest : ∑ j ∈ (Finset.univ.filter fun j => sides j = side).erase i,
        (Function.update held i h j).getD 0 =
        ∑ j ∈ (Finset.univ.filter fun j => sides j = side).erase i, (held j).getD 0 :=
      Finset.sum_congr rfl fun j hj => by
        rw [Function.update_of_ne (Finset.ne_of_mem_erase hj)]
    rw [← Finset.add_sum_erase _ _ hmem, ← Finset.add_sum_erase _ _ hmem, hrest,
      Function.update_self, if_pos hside]
    omega
  · rw [if_neg hside, Int.add_zero]
    refine Finset.sum_congr rfl fun j hj => ?_
    rw [Function.update_of_ne]
    rintro rfl
    exact hside (Finset.mem_filter.1 hj).2

/-- Changing what one process holds to something not negative keeps all so. -/
theorem held_nonneg_update {held : Fin k → Option Int} (h : ∀ i n, held i = some n → 0 ≤ n)
    (i : Fin k) (new : Option Int) (hnew : ∀ n, new = some n → 0 ≤ n) :
    ∀ j n, Function.update held i new j = some n → 0 ≤ n := fun j n hj => by
  by_cases hji : j = i
  · rw [hji, Function.update_self] at hj
    exact hnew n hj
  · rw [Function.update_of_ne hji] at hj
    exact h j n hj

/-- The use of a lock behind a step. -/
theorem run_of_uses (hc : p.Channel q device name depth producer consumer) {id : OpId}
    (hid : id ∈ q.walkIn device) {access : Access} {side : Side} {n : Int}
    (haccess : (p.op id).Accesses name access side n) {values values' : OpId → Int}
    (h : (q.lockUse? id).bind (·.run? values) = some values') :
    LockUse.run? ⟨access.lockOf producer consumer side, access, n⟩ values = some values' := by
  rwa [hc.uses id hid access side n haccess, Option.bind_some] at h

/-- The invariant holds at the start. -/
theorem balanced_start (hc : p.Channel q device name depth producer consumer)
    (hdepth : 0 ≤ depth) : (start q k).Balanced sides producer consumer depth := by
  have hproducer : q.lockStart producer = depth := by
    rw [Program.lockStart, hc.producerLock.initial, Option.getD_some]
  have hconsumer : q.lockStart consumer = 0 := by
    rw [Program.lockStart, hc.consumerLock.initial, Option.getD_some]
  refine ⟨?_, ?_, ?_, fun i n hi => (nomatch hi), ?_⟩
  · simp [start, heldBy, hproducer, hconsumer]
  · simpa [start, hproducer] using hdepth
  · simp [start, hconsumer]
  · simp [start, hconsumer]

/-- What a process acquires it holds, and the lock of its side has no more. -/
theorem Balanced.acquire (hne : producer ≠ consumer)
    (h : s.Balanced sides producer consumer depth) {i : Fin k} {n : Int} {values : OpId → Int}
    (idle : s.held i = none) (nonneg : 0 ≤ n)
    (run : LockUse.run? ⟨Access.acquire.lockOf producer consumer (sides i), .acquire, n⟩ s.values =
      some values) :
    Balanced sides producer consumer depth
      { values
        held := Function.update s.held i (some n)
        released := s.released
        acquired := s.acquired + if sides i = .consume then n else 0 } := by
  obtain ⟨htotal, hproducer, hconsumer, hheld, hfilled⟩ := h
  have hheld' := held_nonneg_update hheld i (some n) fun m hm => by cases hm; exact nonneg
  have hmine : ∀ side, heldBy sides (Function.update s.held i (some n)) side =
      heldBy sides s.held side + if sides i = side then n else 0 := fun side => by
    simp [heldBy_update, idle]
  simp only [LockUse.run?, Option.ite_none_right_eq_some, Option.some.injEq] at run
  obtain ⟨hle, rfl⟩ := run
  cases hside : sides i with
  | produce =>
      simp only [hside, Access.lockOf] at hle ⊢
      refine ⟨?_, ?_, ?_, hheld', ?_⟩ <;>
        simp [hmine, hside, Function.update_of_ne hne.symm] <;> omega
  | consume =>
      simp only [hside, Access.lockOf] at hle ⊢
      refine ⟨?_, ?_, ?_, hheld', ?_⟩ <;> simp [hmine, hside, Function.update_of_ne hne] <;> omega

/-- What a process releases is in the lock of the other side, which may acquire it. -/
theorem Balanced.release (hne : producer ≠ consumer)
    (h : s.Balanced sides producer consumer depth) {i : Fin k} {n : Int} {values : OpId → Int}
    (holds : s.held i = some n)
    (run : LockUse.run? ⟨Access.release.lockOf producer consumer (sides i), .release, n⟩ s.values =
      some values) :
    Balanced sides producer consumer depth
      { values
        held := Function.update s.held i none
        released := s.released + if sides i = .produce then n else 0
        acquired := s.acquired } := by
  obtain ⟨htotal, hproducer, hconsumer, hheld, hfilled⟩ := h
  have hnonneg := hheld i n holds
  have hheld' := held_nonneg_update hheld i none fun m hm => (nomatch hm)
  have hmine : ∀ side, heldBy sides (Function.update s.held i none) side =
      heldBy sides s.held side + if sides i = side then -n else 0 := fun side => by
    simp [heldBy_update, holds]
  simp only [LockUse.run?, Option.some.injEq] at run
  subst run
  cases hside : sides i with
  | produce =>
      simp only [Access.lockOf]
      refine ⟨?_, ?_, ?_, hheld', ?_⟩ <;> simp [hmine, hside, Function.update_of_ne hne] <;> omega
  | consume =>
      simp only [Access.lockOf]
      refine ⟨?_, ?_, ?_, hheld', ?_⟩ <;>
        simp [hmine, hside, Function.update_of_ne hne.symm] <;> omega

/-- A step keeps the invariant. -/
theorem Balanced.step (hc : p.Channel q device name depth producer consumer)
    (h : s.Balanced sides producer consumer depth) (hstep : Step p q device name sides s t) :
    t.Balanced sides producer consumer depth := by
  cases hstep with
  | acquire i id n values hidle hn hid haccess hrun =>
      exact h.acquire hc.distinct hidle hn (run_of_uses hc hid haccess hrun)
  | release i id n values hholds hid haccess hrun =>
      exact h.release hc.distinct hholds (run_of_uses hc hid haccess hrun)

/-- The channel is bounded in every state that the processes reach. -/
theorem bounded_of_run (hc : p.Channel q device name depth producer consumer) (hdepth : 0 ≤ depth)
    (h : Run p q device name sides (start q k) s) : s.Bounded sides producer consumer depth := by
  refine Balanced.bounded ?_
  induction h with
  | refl => exact balanced_start hc hdepth
  | tail _ hstep ih => exact ih.step hc hstep

end ChannelState

end TileFlow
