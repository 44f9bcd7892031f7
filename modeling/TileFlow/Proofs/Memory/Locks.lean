import TileFlow.Proofs.Stage.Edits

/-!
# Identifiers of locks

Two allocators hand out identifiers of locks: the stage that numbers the locks of a device keeps a
ledger of those in use, and later stages ask for the smallest one that no lock of the device has on
a tile. Where the locks sit is told from a program at the start, the base, whose values later edits
keep, so that what is in use can be compared over all of them.

## Main definitions

* `Program.lockSlot?`: the tile and the identifier of a lock.
* `Program.Numbered`: a device whose locks are on tiles and have identifiers of their own.
* `EditRule.lockIds`: the edits of the stage that numbers locks.

## Main results

* `Program.Numbered.edits`: edits that leave locks alone keep them numbered.
* `Program.Numbered.rebase`: locks are numbered by the values of the program itself.
* `assignLockIds_edits`: the locks of every device are numbered.
-/

namespace TileFlow

open TileFlow.Action

variable {rule : EditRule} {base p q r s : Program} {device : OpId}

/-! ### Identifiers on tiles -/

namespace Program

/-- The tile of a lock, as its value names it in a program, and its identifier. -/
def lockSlot? (base : Program) (op : Operation) : Option (Tile × Int) :=
  match (op.operandValue? 0).bind base.placeOf?, op.lockId? with
  | some tile, some n => some (tile, n)
  | _, _ => none

/-- The slot of a lock is its tile and its identifier. -/
theorem lockSlot?_eq_some {op : Operation} {tile : Tile} {n : Int} :
    base.lockSlot? op = some (tile, n) ↔
      (∃ v, op.operandValue? 0 = some v ∧ base.placeOf? v = some tile) ∧ op.lockId? = some n := by
  rw [lockSlot?, ← Option.bind_eq_some_iff]
  split
  · rename_i t m ht hm
    simp [ht, hm]
  · rename_i hnone
    constructor
    · intro h
      cases h
    · rintro ⟨ht, hn⟩
      exact absurd hn (hnone tile n ht)

/-- The slot of a lock is read off its operands. -/
theorem lockSlot?_congr {a b : Operation} (h : b.operands = a.operands) :
    base.lockSlot? b = base.lockSlot? a := by
  rw [lockSlot?, lockSlot?, Operation.operandValue?, Operation.lockId?, Operation.operandInt?, h]
  rfl

/-- A device whose locks are on tiles and have identifiers in range, each its own on its tile. -/
structure Numbered (base : Program) (device : OpId) (p : Program) : Prop where
  placed : ∀ lock ∈ p.findIn device "aie.lock", ∃ tile n,
    base.lockSlot? (p.op lock) = some (tile, n) ∧ 0 ≤ n ∧
      n < (base.modelOf device).lockCount tile.row
  apart : ∀ a ∈ p.findIn device "aie.lock", ∀ b ∈ p.findIn device "aie.lock",
    base.lockSlot? (p.op a) = base.lockSlot? (p.op b) → a = b

end Program

/-- Whether edits under a rule change no lock that has an identifier, and no operand of a device. -/
structure EditRule.LeavesLocks (rule : EditRule) : Prop where
  isLock : ∀ p id op, rule.changes p id op → op.is "aie.lock" = (p.op id).is "aie.lock"
  lock : ∀ p id op, rule.changes p id op → (p.op id).is "aie.lock" = true →
    (p.op id).lockId?.isSome = true → op.operands = (p.op id).operands
  isDevice : ∀ p id op, rule.changes p id op → op.is "aie.device" = (p.op id).is "aie.device"
  device : ∀ p id op, rule.changes p id op → (p.op id).is "aie.device" = true →
    op.operands = (p.op id).operands

/-- A rule that changes no operation leaves the locks. -/
theorem EditRule.leavesLocks_of_unchanged (h : ∀ p id op, ¬ rule.changes p id op) :
    rule.LeavesLocks where
  isLock p id op hop := absurd hop (h p id op)
  lock p id op hop := absurd hop (h p id op)
  isDevice p id op hop := absurd hop (h p id op)
  device p id op hop := absurd hop (h p id op)

/-- Several rules that leave the locks do so together. -/
theorem EditRule.any_leavesLocks {rules : List EditRule} (h : ∀ rule ∈ rules, rule.LeavesLocks) :
    (any rules).LeavesLocks where
  isLock p id op := fun ⟨rule, hrule, hop⟩ => (h rule hrule).isLock p id op hop
  lock p id op := fun ⟨rule, hrule, hop⟩ => (h rule hrule).lock p id op hop
  isDevice p id op := fun ⟨rule, hrule, hop⟩ => (h rule hrule).isDevice p id op hop
  device p id op := fun ⟨rule, hrule, hop⟩ => (h rule hrule).device p id op hop

/-- Locks keep having identifiers if created ones have them. -/
theorem EditRule.LeavesLocks.keeps_lockId (h : rule.LeavesLocks)
    (creates : ∀ p parent op, rule.creates p parent op → op.is "aie.lock" = true →
      op.lockId?.isSome = true) :
    rule.Keeps fun op => op.is "aie.lock" = true → op.lockId?.isSome = true where
  header a b hab ha hb := by
    rw [Operation.lockId?, Operation.operandInt?, hab.operands]
    exact ha ((hab.is _).symm.trans hb)
  creates := creates
  changes p id op hop ha hlock := by
    rw [h.isLock p id op hop] at hlock
    rw [Operation.lockId?, Operation.operandInt?, h.lock p id op hop hlock (ha hlock)]
    exact ha hlock

namespace Program

/-- A lock with an identifier keeps its operands. -/
theorem Edits.lock_operands (hrule : rule.LeavesLocks) (hp : p.Sound) (h : p.Edits rule q)
    {lock : OpId} (hlt : lock < p.slots.size) (hlock : (p.op lock).is "aie.lock" = true)
    (hid : (p.op lock).lockId?.isSome = true) : (q.op lock).operands = (p.op lock).operands := by
  refine (h.operands_eq (P := fun op => op.is "aie.lock" = true ∧ op.lockId?.isSome = true) hp
    (fun a b hab ha => ⟨(hab.is _).trans ha.1, ?_⟩) (fun r id op hop hr => ?_) hlt
    ⟨hlock, hid⟩).2
  · rw [Operation.lockId?, Operation.operandInt?, hab.operands]
    exact ha.2
  · have hsame := hrule.lock r id op hop hr.1 hr.2
    refine ⟨⟨(hrule.isLock r id op hop).trans hr.1, ?_⟩, hsame⟩
    rw [Operation.lockId?, Operation.operandInt?, hsame]
    exact hr.2

/-- A device is of the same family as before. -/
theorem Edits.modelOf (hrule : rule.LeavesLocks) (hp : p.Sound) (h : p.Edits rule q)
    (hlt : device < p.slots.size) (hdevice : (p.op device).is "aie.device" = true) :
    q.modelOf device = p.modelOf device := by
  have hkept := (h.operands_eq (P := fun op => op.is "aie.device" = true) hp
    (fun a b hab ha => (hab.is _).trans ha)
    (fun r id op hop hr => ⟨(hrule.isDevice r id op hop).trans hr, hrule.device r id op hop hr⟩)
    hlt hdevice).2
  rw [Program.modelOf, Operation.operandText?, hkept]
  rfl

/-- Edits that create no lock and leave those that there are alone keep the locks of a device
numbered. -/
theorem Numbered.edits (hn : base.Numbered device p) (hrule : rule.LeavesLocks) (hp : p.Sound)
    (h : p.Edits rule q) (hdevice : device ∈ q.walk)
    (creates : ∀ p parent op, rule.creates p parent op → op.is "aie.lock" = false) :
    base.Numbered device q := by
  have hev := h.evolves hp
  -- Every lock of after is one of before, with the same operands.
  have hold : ∀ lock ∈ q.findIn device "aie.lock",
      lock ∈ p.findIn device "aie.lock" ∧ (q.op lock).operands = (p.op lock).operands :=
    fun lock hlock => by
      obtain ⟨hin, hname⟩ := List.mem_filter.1 hlock
      have hlt : lock < p.slots.size := by
        refine Nat.lt_of_not_le fun hge => ?_
        have := h.keeps (K := fun op => op.is "aie.lock" = false)
          ⟨fun _ _ hab ha => (hab.is _).trans ha, creates,
            fun p id op hop ha => (hrule.isLock p id op hop).trans ha⟩ hp
          (hev.sound.lt_size_of_walkIn hin) fun hlt => absurd hlt (Nat.not_lt.2 hge)
        rw [hname] at this
        cases this
      have hname' : (p.op lock).is "aie.lock" = true := by
        rw [← h.is_eq hp hrule.isLock hlt, hname]
      have hmem : lock ∈ p.findIn device "aie.lock" :=
        List.mem_filter.2 ⟨hev.mem_walkIn hdevice hin hlt, hname'⟩
      obtain ⟨tile, n, hslot, -⟩ := hn.placed lock hmem
      refine ⟨hmem, h.lock_operands hrule hp hlt hname' ?_⟩
      rw [(lockSlot?_eq_some.1 hslot).2]
      rfl
  refine ⟨fun lock hlock => ?_, fun a ha b hb hab => ?_⟩
  · obtain ⟨hmem, hoperands⟩ := hold lock hlock
    rw [lockSlot?_congr hoperands]
    exact hn.placed lock hmem
  · obtain ⟨hma, hoa⟩ := hold a ha
    obtain ⟨hmb, hob⟩ := hold b hb
    rw [lockSlot?_congr hoa, lockSlot?_congr hob] at hab
    exact hn.apart a hma b hmb hab

/-- A program that has kept the values of another one, in which its locks are numbered, has its
locks numbered by its own values. -/
theorem Numbered.rebase (h : base.Numbered device p) (hresolves : p.Resolves base)
    (hvalues : p.definedValues.Nodup) (hmodel : p.modelOf device = base.modelOf device) :
    p.Numbered device p := by
  have hslot : ∀ op slot, base.lockSlot? op = some slot → p.lockSlot? op = some slot :=
    fun op slot hslot => by
      obtain ⟨⟨v, hv, hplace⟩, hn⟩ := lockSlot?_eq_some.1 hslot
      exact lockSlot?_eq_some.2 ⟨⟨v, hv, hresolves.placeOf? hvalues hplace⟩, hn⟩
  refine ⟨fun lock hlock => ?_, fun a ha b hb hab => h.apart a ha b hb ?_⟩
  · obtain ⟨tile, n, hbase, hpos, hlimit⟩ := h.placed lock hlock
    exact ⟨tile, n, hslot _ _ hbase, hpos, hmodel ▸ hlimit⟩
  · obtain ⟨tile, n, hbase, -⟩ := h.placed a ha
    obtain ⟨tile', n', hbase', -⟩ := h.placed b hb
    rw [hslot _ _ hbase, hslot _ _ hbase'] at hab
    rw [hbase, hbase', hab]

end Program

/-! ### The ledger -/

namespace LockLedger

/-- The first free identifier is in range and free. -/
theorem firstFree?_eq_some {l : LockLedger} {tile : Tile} {limit : Nat} {n : Int}
    (h : l.firstFree? tile limit = some n) : 0 ≤ n ∧ n < limit ∧ (tile, n) ∉ l.taken := by
  obtain ⟨k, hk, rfl⟩ := List.mem_map.1 (List.mem_of_find?_eq_some h)
  have hfree := List.find?_some h
  refine ⟨Int.natCast_nonneg k, by simpa using hk, fun hmem => ?_⟩
  rw [isTaken, List.contains_iff_mem.2 hmem] at hfree
  cases hfree

/-- A ledger that has the slots of some locks, which are all different. -/
structure Records (l : LockLedger) (base : Program) (limit : Tile → Nat) (S : OpId → Prop)
    (p : Program) : Prop where
  entry : ∀ a, S a → ∃ tile n, base.lockSlot? (p.op a) = some (tile, n) ∧ 0 ≤ n ∧
    n < limit tile ∧ (tile, n) ∈ l.taken
  apart : ∀ a b, S a → S b → base.lockSlot? (p.op a) = base.lockSlot? (p.op b) → a = b

variable {l : LockLedger} {limit : Tile → Nat} {S S' : OpId → Prop}

/-- What is recorded for many locks is recorded for few. -/
theorem Records.congr (h : l.Records base limit S p) (hS : ∀ a, S' a → S a) :
    l.Records base limit S' p :=
  ⟨fun a ha => h.entry a (hS a ha), fun a b ha hb => h.apart a b (hS a ha) (hS b hb)⟩

/-- A lock that takes a free identifier differs from all that are recorded. -/
theorem Records.take (h : l.Records base limit S p) {a : OpId} {tile : Tile} {n : Int}
    (hslot : base.lockSlot? (q.op a) = some (tile, n)) (hpos : 0 ≤ n) (hlimit : n < limit tile)
    (hfree : (tile, n) ∉ l.taken) (hkept : ∀ b, S b → q.op b = p.op b) :
    (l.take tile n).Records base limit (fun b => S b ∨ b = a) q := by
  have hnew : ∀ b, S b → base.lockSlot? (q.op b) ≠ some (tile, n) := fun b hb heq => by
    obtain ⟨tile', n', hslot', -, -, hmem⟩ := h.entry b hb
    rw [hkept b hb, hslot', Option.some.injEq, Prod.mk.injEq] at heq
    obtain ⟨rfl, rfl⟩ := heq
    exact hfree hmem
  refine ⟨fun b hb => ?_, fun b c hb hc hbc => ?_⟩
  · rcases hb with hb | rfl
    · obtain ⟨tile', n', hslot', hpos', hlimit', hmem⟩ := h.entry b hb
      exact ⟨tile', n', by rw [hkept b hb, hslot'], hpos', hlimit', List.mem_cons_of_mem _ hmem⟩
    · exact ⟨tile, n, hslot, hpos, hlimit, List.mem_cons_self⟩
  · rcases hb with hb | rfl <;> rcases hc with hc | rfl
    · rw [hkept b hb, hkept c hc] at hbc
      exact h.apart b c hb hc hbc
    · exact absurd (hbc.trans hslot) (hnew b hb)
    · exact absurd (hbc.symm.trans hslot) (hnew c hc)
    · rfl

end LockLedger

/-! ### Numbering -/

/-- Locks without an identifier get one. -/
def EditRule.lockIds : EditRule where
  creates _ _ _ := False
  changes p id op := (p.op id).is "aie.lock" = true ∧ (p.op id).lockId? = none ∧
    ∃ v n, (p.op id).operandValue? 0 = some v ∧
      op = { p.op id with operands := [.value v, .int n] }
  erases _ _ := False

/-- Giving locks identifiers leaves devices alone. -/
theorem EditRule.lockIds_sparesDevices : EditRule.lockIds.SparesDevices where
  creates _ _ _ hop := hop.elim
  changes p id op hop := by
    obtain ⟨-, -, v, n, -, rfl⟩ := hop
    rfl
  erases _ _ hop := hop.elim

/-- Giving locks identifiers creates nothing. -/
theorem EditRule.lockIds_names : EditRule.lockIds.Names [] where
  creates _ _ _ hop := hop.elim
  changes p id op hop := by
    obtain ⟨-, -, v, n, -, rfl⟩ := hop
    exact .inl rfl

/-- Giving locks identifiers leaves those that have one. -/
theorem EditRule.lockIds_leavesLocks : EditRule.lockIds.LeavesLocks where
  isLock p id op hop := by
    obtain ⟨-, -, v, n, -, rfl⟩ := hop
    rfl
  lock p id op hop _ hid := by
    obtain ⟨-, hnone, -⟩ := hop
    rw [hnone] at hid
    cases hid
  isDevice := lockIds_sparesDevices.changes
  device p id op hop hdevice := by
    obtain ⟨hlock, -⟩ := hop
    exact absurd (Operation.is_inj hlock hdevice) (by decide)

/-- A lock that is given an identifier keeps its place. -/
theorem EditRule.lockIds_keepsPlace {id : OpId} {op : Operation}
    (h : EditRule.lockIds.changes p id op) :
    Program.KeepsPlace (p.op id) op ∧ Program.KeepsPlace op (p.op id) := by
  obtain ⟨hlock, -, v, n, hv, rfl⟩ := h
  have hnot : (p.op id).is "aie.tile" = false := Operation.not_is_of_is hlock (by decide)
  refine ⟨⟨rfl, rfl, fun htile => ?_, fun w hw => ?_⟩, ⟨rfl, rfl, fun htile => ?_, fun w hw => ?_⟩⟩
  · rw [show Operation.is { p.op id with operands := [.value v, .int n] } "aie.tile" = false
      from hnot] at htile
    cases htile
  · rw [hv]
    exact hw
  · rw [hnot] at htile
    cases htile
  · rw [hv] at hw
    exact hw

/-- What a run of `enterLock` records: nothing for a lock without identifier, and else a slot in
range that was free. -/
theorem enterLock_ok {model : DeviceModel} {l l' : LockLedger} {lock : OpId}
    (h : runOn (enterLock model l lock) p = (.ok l', q)) :
    p = q ∧ ∃ tile, p.owningTile? lock = some tile ∧
      (((p.op lock).lockId? = none ∧ l' = l) ∨ ∃ n, (p.op lock).lockId? = some n ∧ 0 ≤ n ∧
        n < model.lockCount tile.row ∧ (tile, n) ∉ l.taken ∧ l' = l.take tile n) := by
  rw [enterLock, get_bind_ok] at h
  obtain ⟨tile, htile, h⟩ := orFail_bind_ok.1 h
  split at h
  · rename_i hnone
    obtain ⟨rfl, rfl⟩ := pure_ok.1 h
    exact ⟨rfl, tile, htile, .inl ⟨hnone, rfl⟩⟩
  · rename_i n hn
    obtain ⟨hrange, h⟩ := ensure_bind_ok.1 h
    obtain ⟨hfree, h⟩ := ensure_bind_ok.1 h
    obtain ⟨rfl, rfl⟩ := pure_ok.1 h
    rw [Bool.and_eq_true, decide_eq_true_eq, decide_eq_true_eq] at hrange
    refine ⟨rfl, tile, htile, .inr ⟨n, hn, hrange.1, hrange.2, fun hmem => ?_, rfl⟩⟩
    rw [LockLedger.isTaken, List.contains_iff_mem.2 hmem] at hfree
    cases hfree

/-- What a run of `chooseLockId` does: nothing for a lock with an identifier, and else it gives the
first that is free. -/
theorem chooseLockId_ok {model : DeviceModel} {l l' : LockLedger} {lock : OpId}
    (h : runOn (chooseLockId model l lock) p = (.ok l', q)) :
    ((p.op lock).lockId?.isSome = true ∧ l' = l ∧ q = p) ∨
      ((p.op lock).lockId? = none ∧ ∃ (tile : Tile) (n : Int), p.owningTile? lock = some tile ∧
        l.firstFree? tile (model.lockCount tile.row) = some n ∧ l' = l.take tile n ∧
        q = p.modify lock fun op => { op with operands := op.operands.take 1 ++ [.int n] }) := by
  rw [chooseLockId, get_bind_ok] at h
  split at h
  · rename_i m hm
    obtain ⟨rfl, rfl⟩ := pure_ok.1 h
    exact .inl ⟨by rw [hm]; rfl, rfl, rfl⟩
  · rename_i hnone
    obtain ⟨tile, htile, h⟩ := orFail_bind_ok.1 h
    obtain ⟨n, hn, h⟩ := orFail_bind_ok.1 h
    obtain ⟨_, r, hupdate, h⟩ := bind_ok.1 h
    rw [runOn_update, Prod.mk.injEq] at hupdate
    obtain ⟨-, rfl⟩ := hupdate
    obtain ⟨rfl, rfl⟩ := pure_ok.1 h
    exact .inr ⟨hnone, tile, n, htile, hn, rfl, rfl⟩

/-- A lock with an identifier in range that no lock has which was entered before is entered. -/
theorem enterLock_run {model : DeviceModel} {l : LockLedger} {lock : OpId} {tile : Tile} {n : Int}
    (htile : p.owningTile? lock = some tile) (hn : (p.op lock).lockId? = some n) (hpos : 0 ≤ n)
    (hlimit : n < model.lockCount tile.row) (hfree : (tile, n) ∉ l.taken) :
    runOn (enterLock model l lock) p = (.ok (l.take tile n), p) := by
  rw [enterLock, get_bind_ok]
  refine orFail_bind_ok.2 ⟨tile, htile, ?_⟩
  rw [hn]
  refine ensure_bind_ok.2 ⟨by simp [hpos, hlimit], ensure_bind_ok.2 ⟨?_, rfl⟩⟩
  simpa [LockLedger.isTaken] using hfree

/-- A lock with an identifier keeps it. -/
theorem chooseLockId_run {model : DeviceModel} {l : LockLedger} {lock : OpId} {n : Int}
    (hn : (p.op lock).lockId? = some n) : runOn (chooseLockId model l lock) p = (.ok l, p) := by
  rw [chooseLockId, get_bind_ok, hn]
  rfl

/-- The operands after an identifier was put behind the first. -/
theorem Operation.take_one_append {op : Operation} {v : String} (h : op.operandValue? 0 = some v)
    (n : Int) : op.operands.take 1 ++ [.int n] = [.value v, .int n] := by
  obtain ⟨a, ha, hv⟩ := Option.bind_eq_some_iff.1 h
  cases hoperands : op.operands with
  | nil => simp [hoperands] at ha
  | cons b rest =>
      rw [hoperands] at ha
      obtain rfl : b = a := by simpa using ha
      cases b <;> simp_all [Attribute.value?]

/-- A lock that sits on a tile has its slot there, whatever the values of before are named by. -/
theorem Program.lockSlot?_of_owningTile? (h : base.Resolves p) (hvalues : base.definedValues.Nodup)
    {lock : OpId} {tile : Tile} {op : Operation} {n : Int} (htile : p.owningTile? lock = some tile)
    (hoperand : op.operandValue? 0 = (p.op lock).operandValue? 0) (hn : op.lockId? = some n) :
    base.lockSlot? op = some (tile, n) := by
  rw [owningTile?_eq] at htile
  obtain ⟨v, hv, ht⟩ := Option.bind_eq_some_iff.1 htile
  exact lockSlot?_eq_some.2 ⟨⟨v, hoperand.trans hv, h.placeOf? hvalues ht⟩, hn⟩

/-- The identifiers that locks come with are recorded. -/
theorem enterLocks_ok {model : DeviceModel} {l : LockLedger} {locks : List OpId}
    (hlocks : locks.Nodup) (hbase : base.Resolves p) (hvalues : base.definedValues.Nodup)
    (h : runOn (locks.foldlM (enterLock model) ⟨[]⟩) p = (.ok l, q)) :
    p = q ∧ l.Records base (fun tile => model.lockCount tile.row)
      (fun a => a ∈ locks ∧ (p.op a).lockId?.isSome = true) p := by
  refine foldlM_prefix (I := fun done l r => p = r ∧
    l.Records base (fun tile => model.lockCount tile.row)
      (fun a => a ∈ done ∧ (p.op a).lockId?.isSome = true) p) hlocks h
    ⟨rfl, fun a ha => (nomatch ha.1), fun a _ ha => (nomatch ha.1)⟩ ?_
  rintro c - done hfresh l l' r s ⟨rfl, hl⟩ hstep
  obtain ⟨rfl, tile, htile, ⟨hnone, rfl⟩ | ⟨n, hn, hpos, hlimit, hfree, rfl⟩⟩ := enterLock_ok hstep
  · refine ⟨rfl, hl.congr fun a ⟨ha, hsome⟩ => ⟨?_, hsome⟩⟩
    rcases List.mem_append.1 ha with ha | ha
    · exact ha
    · obtain rfl := List.mem_singleton.1 ha
      rw [hnone] at hsome
      cases hsome
  · have hslot := Program.lockSlot?_of_owningTile? hbase hvalues htile rfl hn
    refine ⟨rfl, (hl.take hslot hpos hlimit hfree fun _ _ => rfl).congr fun a ⟨ha, hsome⟩ => ?_⟩
    rcases List.mem_append.1 ha with ha | ha
    · exact .inl ⟨ha, hsome⟩
    · exact .inr (List.mem_singleton.1 ha)

/-- A lock that is not recorded yet gets a free identifier, and is recorded with the others. -/
theorem chooseLockId_step {model : DeviceModel} {l l' : LockLedger} {lock : OpId}
    {S : OpId → Prop} (hbase : base.Resolves p) (hvalues : base.definedValues.Nodup)
    (hlt : lock < p.slots.size) (hname : (p.op lock).is "aie.lock" = true)
    (hS : S lock ↔ (p.op lock).lockId?.isSome = true)
    (hl : l.Records base (fun tile => model.lockCount tile.row) S p)
    (h : runOn (chooseLockId model l lock) p = (.ok l', q)) :
    p.Edits .lockIds q ∧ (∀ a, a ≠ lock → q.op a = p.op a) ∧
      l'.Records base (fun tile => model.lockCount tile.row) (fun a => S a ∨ a = lock) q := by
  rcases chooseLockId_ok h with ⟨hsome, rfl, rfl⟩ | ⟨hnone, tile, n, htile, hfirst, rfl, rfl⟩
  · refine ⟨.refl, fun _ _ => rfl, hl.congr fun a ha => ?_⟩
    rcases ha with ha | rfl
    · exact ha
    · exact hS.2 hsome
  · obtain ⟨hpos, hlimit, hfree⟩ := LockLedger.firstFree?_eq_some hfirst
    obtain ⟨v, hv, -⟩ := Option.bind_eq_some_iff.1 (p.owningTile?_eq lock ▸ htile)
    have hself : (p.modify lock fun op => { op with
        operands := op.operands.take 1 ++ [.int n] }).op lock =
        { p.op lock with operands := [.value v, .int n] } := by
      rw [Program.op_modify_self hlt, Operation.take_one_append hv]
    have hslot : base.lockSlot? { p.op lock with operands := [.value v, .int n] } =
        some (tile, n) :=
      Program.lockSlot?_of_owningTile? hbase hvalues htile hv.symm rfl
    refine ⟨.single (.change lock _ hlt ⟨hname, hnone, v, n, hv, ?_⟩ rfl),
      fun a ha => Program.op_modify_of_ne ha _, hl.take (hself ▸ hslot) hpos hlimit hfree
        fun a ha => Program.op_modify_of_ne ?_ _⟩
    · rw [Operation.take_one_append hv]
    · rintro rfl
      have hsome := hS.1 ha
      rw [hnone] at hsome
      cases hsome

/-- The locks without an identifier get one, and all are recorded in the end. -/
theorem chooseLockIds_ok {model : DeviceModel} {l l' : LockLedger} {locks : List OpId}
    (hlocks : locks.Nodup) (hbase : base.Sound) (hvalues : base.definedValues.Nodup)
    (hp : base.Edits .lockIds p)
    (hl : ∀ lock ∈ locks, lock < p.slots.size ∧ (p.op lock).is "aie.lock" = true)
    (hrecords : l.Records base (fun tile => model.lockCount tile.row)
      (fun a => a ∈ locks ∧ (p.op a).lockId?.isSome = true) p)
    (h : runOn (locks.foldlM (chooseLockId model) l) p = (.ok l', q)) :
    p.Edits .lockIds q ∧ l'.Records base (fun tile => model.lockCount tile.row) (· ∈ locks) q := by
  have hsound := hp.sound hbase
  have hresolves : ∀ r, p.Edits .lockIds r → base.Resolves r := fun r hr =>
    (hp.trans hr).resolved hbase (fun _ _ _ hop => hop.elim) fun _ _ _ hop =>
      (EditRule.lockIds_keepsPlace hop).1
  -- The locks that are done have an identifier by now, and the others are as they were.
  let I := fun (done : List OpId) (l : LockLedger) (r : Program) => p.Edits .lockIds r ∧
    (∀ a, a ∉ done → r.op a = p.op a) ∧ l.Records base (fun tile => model.lockCount tile.row)
      (fun a => a ∈ locks ∧ ((p.op a).lockId?.isSome = true ∨ a ∈ done)) r
  have hloop : I locks l' q := by
    refine foldlM_prefix hlocks h ⟨.refl, fun _ _ => rfl, hrecords.congr fun a ⟨ha, hsome⟩ =>
      ⟨ha, hsome.resolve_right (fun hmem => nomatch hmem)⟩⟩ ?_
    rintro c hc done hfresh l l' r s ⟨hr, hkept, hrec⟩ hstep
    have hcop := hkept c hfresh
    obtain ⟨hedits, hother, hrec'⟩ := chooseLockId_step (hresolves r hr) hvalues
      (Nat.lt_of_lt_of_le (hl c hc).1 (hr.size_le hsound)) (by rw [hcop, (hl c hc).2])
      (by rw [hcop]; exact ⟨fun h => h.2.resolve_right hfresh, fun h => ⟨hc, .inl h⟩⟩) hrec hstep
    refine ⟨hr.trans hedits, fun a ha => ?_, hrec'.congr fun a ⟨ha, hor⟩ => ?_⟩
    · rw [List.mem_append, List.mem_singleton, not_or] at ha
      rw [hother a ha.2, hkept a ha.1]
    · rw [List.mem_append, List.mem_singleton, ← or_assoc] at hor
      exact hor.imp_left fun hold => ⟨ha, hold⟩
  exact ⟨hloop.1, hloop.2.2.congr fun a ha => ⟨ha, .inr ha⟩⟩

/-- The locks of a device are numbered. -/
theorem assignLockIds_ok (hbase : base.Sound) (hvalues : base.definedValues.Nodup)
    (hp : base.Edits .lockIds p) (hdevice : device ∈ p.devices)
    (h : runOn (assignLockIds device) p = (.ok (), q)) :
    p.Edits .lockIds q ∧ base.Numbered device q := by
  have hsound := hp.sound hbase
  have hdevice' := (hp.mem_devices EditRule.lockIds_sparesDevices hbase).1 hdevice
  have hmodel : p.modelOf device = base.modelOf device :=
    hp.modelOf EditRule.lockIds_leavesLocks hbase
      (hbase.created _ (Program.mem_walk_of_mem_devices hdevice'))
      (Program.mem_devices.1 hdevice').2
  have hwalk := Program.mem_walk_of_mem_devices hdevice
  have hlocks := hsound.toWellFormed.nodup_findIn hwalk "aie.lock"
  rw [assignLockIds, get_bind_ok] at h
  obtain ⟨l, r, henter, h⟩ := bind_ok.1 h
  obtain ⟨rfl, hl⟩ := enterLocks_ok hlocks (hp.resolved hbase (fun _ _ _ hop => hop.elim)
    fun _ _ _ hop => (EditRule.lockIds_keepsPlace hop).1) hvalues henter
  obtain ⟨l', s, hchoose, h⟩ := bind_ok.1 h
  obtain ⟨-, rfl⟩ := pure_ok.1 h
  obtain ⟨hedits, hrec⟩ := chooseLockIds_ok hlocks hbase hvalues hp (fun lock hlock =>
    have hmem := List.mem_filter.1 hlock
    ⟨hsound.lt_size_of_walkIn hmem.1, hmem.2⟩) hl hchoose
  have hev := hedits.evolves hsound
  have hsub : ∀ lock ∈ s.findIn device "aie.lock", lock ∈ p.findIn device "aie.lock" :=
    fun lock hlock => by
      obtain ⟨hin, hname⟩ := List.mem_filter.1 hlock
      have hsize : s.slots.size = p.slots.size := hedits.size_eq fun _ _ _ hop => hop
      have hlt : lock < p.slots.size := hsize ▸ hev.sound.lt_size_of_walkIn hin
      have hdevices := (hedits.mem_devices EditRule.lockIds_sparesDevices hsound).2 hdevice
      refine List.mem_filter.2
        ⟨hev.mem_walkIn (Program.mem_walk_of_mem_devices hdevices) hin hlt, ?_⟩
      rw [← hedits.is_eq hsound EditRule.lockIds_leavesLocks.isLock hlt, hname]
  refine ⟨hedits, fun lock hlock => ?_, fun a ha b hb => hrec.apart a b (hsub a ha) (hsub b hb)⟩
  obtain ⟨tile, n, hslot, hpos, hlimit, -⟩ := hrec.entry lock (hsub lock hlock)
  exact ⟨tile, n, hslot, hpos, hmodel ▸ hlimit⟩

/-- The locks of all devices are numbered. -/
theorem assignLockIds_edits (hp : p.Sound) (hvalues : p.definedValues.Nodup)
    (h : runOn Stage.assignLockIds.action p = (.ok (), q)) :
    p.Edits .lockIds q ∧ ∀ device ∈ q.devices, p.Numbered device q :=
  Stage.onEachDevice_ok EditRule.lockIds_sparesDevices hp h
    (fun _ _ _ _ hedits hdevice hrun => assignLockIds_ok hp hvalues hedits hdevice hrun)
    fun _ _ _ hr hdevice hedits hn => hn.edits EditRule.lockIds_leavesLocks hr hedits
      (Program.mem_walk_of_mem_devices hdevice) fun _ _ _ hop => hop.elim

end TileFlow
