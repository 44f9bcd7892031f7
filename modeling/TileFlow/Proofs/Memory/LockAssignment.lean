import Mathlib.Data.List.Perm.Subperm
import TileFlow.Proofs.Memory.Locks
import TileFlow.Proofs.Device.Placement
import TileFlow.Proofs.Stage.Confined
import TileFlow.Proofs.Stage.Pipeline

/-!
# What the numbering of locks gives

The stage that numbers locks keeps a ledger of the identifiers in use. At every point of a run the
ledger lists the slots of those locks that have an identifier by then, each once. So a lock that
still needs one finds one exactly when its tile does not carry more locks than there are
identifiers, whatever gaps the written identifiers leave, and the smallest free one of the ledger is
the smallest that is neither written on the tile nor given to a lock before.

## Main definitions

* `Program.LocksFit`: devices whose locks can be numbered.
* `Program.InUse`, `Program.GivenId`: identifiers that are in use for a lock, and the one it gets.
* `LockLedger.Mirrors`: a ledger that lists the slots of the locks with an identifier.
* `Program.Choosing`: the state of a run in which some of the locks are done.

## Main results

* `LockLedger.Mirrors.exists_free`: where locks have room, a lock without an identifier finds one.
* `assignLockIds_iff`: the devices whose locks are numbered, with what identifiers.
-/

namespace TileFlow

open TileFlow.Action

variable {p q r s : Program} {device lock : OpId} {tile : Tile} {n m : Int} {l l' : LockLedger}
  {locks done before after : List OpId} {limit : Tile → Nat} {model : DeviceModel}

/-- Where an element stands in a list with one more at its end. -/
theorem eq_or_of_snoc_eq {α : Type} {l before after : List α} {c x : α}
    (h : l ++ [c] = before ++ x :: after) :
    (before = l ∧ x = c ∧ after = []) ∨ ∃ after', l = before ++ x :: after' ∧
      after = after' ++ [c] := by
  rcases List.eq_nil_or_concat after with rfl | ⟨after', y, rfl⟩
  · obtain ⟨hl, hc⟩ := List.append_inj' h rfl
    exact .inl ⟨hl.symm, (List.singleton_inj.1 hc).symm, rfl⟩
  · rw [List.concat_eq_append, ← List.cons_append, ← List.append_assoc] at h
    obtain ⟨hl, hc⟩ := List.append_inj' h rfl
    exact .inr ⟨after', hl, by rw [List.concat_eq_append, hc]⟩

namespace Program

/-- How many locks a tile of a device can carry. -/
def lockLimit (p : Program) (device : OpId) (tile : Tile) : Nat :=
  (p.modelOf device).lockCount tile.row

/-- The locks of a device that sit on a tile. -/
def locksOn (p : Program) (device : OpId) (tile : Tile) : List OpId :=
  (p.findIn device "aie.lock").filter fun lock => p.owningTile? lock = some tile

/-- A device whose locks can be numbered: each sits on a tile, the identifiers that are written are
in range and written once on each tile, and no tile carries more locks than it has identifiers. -/
structure LocksFit (p : Program) (device : OpId) : Prop where
  placed : ∀ lock ∈ p.findIn device "aie.lock", ∃ tile, p.owningTile? lock = some tile
  inRange : ∀ lock ∈ p.findIn device "aie.lock", ∀ tile n, p.owningTile? lock = some tile →
    (p.op lock).lockId? = some n → 0 ≤ n ∧ n < p.lockLimit device tile
  once : ∀ a ∈ p.findIn device "aie.lock", ∀ b ∈ p.findIn device "aie.lock", ∀ tile n,
    p.owningTile? a = some tile → p.owningTile? b = some tile →
    (p.op a).lockId? = some n → (p.op b).lockId? = some n → a = b
  room : ∀ tile, (p.locksOn device tile).length ≤ p.lockLimit device tile

/-- Whether an identifier is in use on a tile for a lock that comes after some others: it was
written on the tile, or has been given to one of the others there. -/
def InUse (p q : Program) (device : OpId) (before : List OpId) (tile : Tile) (n : Int) : Prop :=
  (∃ other ∈ p.findIn device "aie.lock", p.owningTile? other = some tile ∧
    (p.op other).lockId? = some n) ∨
  ∃ other ∈ before, p.owningTile? other = some tile ∧ (q.op other).lockId? = some n

/-- A lock that was given the smallest identifier that is not in use on its tile. -/
structure GivenId (p q : Program) (device : OpId) (before : List OpId) (lock : OpId) (tile : Tile)
    (n : Int) : Prop where
  placed : p.owningTile? lock = some tile
  given : q.op lock =
    { p.op lock with operands := (p.op lock).operands.take 1 ++ [.int n] }
  nonneg : 0 ≤ n
  below : n < p.lockLimit device tile
  free : ¬p.InUse q device before tile n
  least : ∀ m, 0 ≤ m → m < n → p.InUse q device before tile m

/-- The tile and the identifier of a lock that has both. -/
def lockAt? (p : Program) (lock : OpId) : Option (Tile × Int) :=
  (p.owningTile? lock).bind fun tile => (p.op lock).lockId?.map (tile, ·)

/-- Tile and identifier of a lock. -/
theorem lockAt?_eq_some : p.lockAt? lock = some (tile, n) ↔
    p.owningTile? lock = some tile ∧ (p.op lock).lockId? = some n := by
  rw [lockAt?]
  rcases p.owningTile? lock with _ | t <;> rcases (p.op lock).lockId? with _ | m <;> simp

/-- A lock without identifier takes no slot. -/
theorem lockAt?_eq_none (h : (p.op lock).lockId? = none) : p.lockAt? lock = none := by
  rw [lockAt?, h]
  cases p.owningTile? lock <;> rfl

/-- The slots on a tile are those of the locks on it. -/
theorem filter_lockAt? (p : Program) (locks : List OpId) (tile : Tile) :
    (locks.filterMap p.lockAt?).filter (fun s => s.1 = tile) =
      (locks.filter fun lock => p.owningTile? lock = some tile).filterMap p.lockAt? := by
  rw [List.filter_filterMap, List.filterMap_filter]
  congr 1
  funext lock
  rw [lockAt?]
  rcases p.owningTile? lock with _ | t <;> rcases (p.op lock).lockId? with _ | n <;>
    simp [Option.filter]

end Program

/-! ### The ledger of a run -/

namespace LockLedger

/-- Whether a ledger lists the slots of some locks, those that have an identifier, each once. -/
structure Mirrors (l : LockLedger) (limit : Tile → Nat) (p : Program) (locks : List OpId) :
    Prop where
  slots : l.taken.Perm (locks.filterMap p.lockAt?)
  distinct : l.taken.Nodup
  inRange : ∀ tile n, (tile, n) ∈ l.taken → 0 ≤ n ∧ n < limit tile

/-- The identifiers of a tile, as slots. -/
def slotsBelow (tile : Tile) (limit : Nat) : List (Tile × Int) :=
  (List.range limit).map fun k => (tile, Int.ofNat k)

/-- The slots of a tile below a limit. -/
theorem mem_slotsBelow {limit : Nat} {s : Tile × Int} :
    s ∈ slotsBelow tile limit ↔ s.1 = tile ∧ 0 ≤ s.2 ∧ s.2 < limit := by
  obtain ⟨t, n⟩ := s
  simp only [slotsBelow, List.mem_map, List.mem_range, Prod.mk.injEq]
  constructor
  · rintro ⟨k, hk, rfl, rfl⟩
    exact ⟨rfl, Int.natCast_nonneg k, Int.ofNat_lt.2 hk⟩
  · rintro ⟨rfl, hpos, hlimit⟩
    exact ⟨n.toNat, by omega, rfl, Int.toNat_of_nonneg hpos⟩

/-- The first free identifier is free, and all below it are in use. -/
theorem firstFree?_least {limit : Nat} (h : l.firstFree? tile limit = some n) :
    ∀ m, 0 ≤ m → m < n → (tile, m) ∈ l.taken := by
  rw [firstFree?, List.find?_map, Option.map_eq_some_iff] at h
  obtain ⟨k, hk, rfl⟩ := h
  obtain ⟨-, -, hleast⟩ := List.find?_range_eq_some.1 hk
  intro m hpos hm
  have htaken := hleast m.toNat ((Int.toNat_lt hpos).2 hm)
  rw [Function.comp_apply, Int.ofNat_eq_natCast, Int.toNat_of_nonneg hpos, Bool.not_not, isTaken,
    List.contains_iff_mem] at htaken
  exact htaken

/-- Where no identifier is free, all are in use. -/
theorem firstFree?_eq_none {limit : Nat} (h : l.firstFree? tile limit = none) :
    slotsBelow tile limit ⊆ l.taken := by
  intro s hs
  obtain ⟨k, hk, rfl⟩ := List.mem_map.1 hs
  have hfree := List.find?_eq_none.1 h (Int.ofNat k) (List.mem_map_of_mem hk)
  simpa [isTaken] using hfree

namespace Mirrors

/-- The slots the ledger holds are those of the locks entered. -/
theorem mem_taken (h : l.Mirrors limit p locks) : (tile, n) ∈ l.taken ↔
    ∃ lock ∈ locks, p.owningTile? lock = some tile ∧ (p.op lock).lockId? = some n := by
  rw [h.slots.mem_iff, List.mem_filterMap]
  simp only [Program.lockAt?_eq_some]

/-- The locks with an identifier have it in range, and for themselves on their tile. -/
theorem numbered (h : l.Mirrors limit p locks) {a b : OpId} (ha : a ∈ locks)
    (hta : p.owningTile? a = some tile) (hna : (p.op a).lockId? = some n) :
    (0 ≤ n ∧ n < limit tile) ∧ (b ∈ locks → p.owningTile? b = some tile →
      (p.op b).lockId? = some n → a = b) :=
  ⟨h.inRange tile n (h.mem_taken.2 ⟨a, ha, hta, hna⟩), fun hb htb hnb =>
    eq_of_nodup_filterMap (h.slots.nodup_iff.1 h.distinct) ha hb
      (Program.lockAt?_eq_some.2 ⟨hta, hna⟩) (Program.lockAt?_eq_some.2 ⟨htb, hnb⟩)⟩

/-- The ledger holds as many slots of a tile as there are locks on it with an identifier. -/
theorem length_filter (h : l.Mirrors limit p locks) (tile : Tile) :
    (l.taken.filter fun s => s.1 = tile).length =
      ((locks.filter fun lock => p.owningTile? lock = some tile).filterMap p.lockAt?).length := by
  rw [(h.slots.filter _).length_eq, p.filter_lockAt?]

/-- Where locks have room, one of them that has no identifier finds a free one: those in use on its
tile are fewer than the locks there. -/
theorem exists_free (h : l.Mirrors limit p locks) (hlock : lock ∈ locks)
    (ht : p.owningTile? lock = some tile) (hnone : (p.op lock).lockId? = none)
    (hroom : (locks.filter fun lock => p.owningTile? lock = some tile).length ≤ limit tile) :
    ∃ n, l.firstFree? tile (limit tile) = some n := by
  by_contra hfull
  have hsub : slotsBelow tile (limit tile) ⊆ l.taken.filter fun s => s.1 = tile := fun s hs =>
    List.mem_filter.2 ⟨firstFree?_eq_none (Option.eq_none_iff_forall_ne_some.2 fun n hn =>
      hfull ⟨n, hn⟩) hs, by simpa using (mem_slotsBelow.1 hs).1⟩
  have hnodup : (slotsBelow tile (limit tile)).Nodup :=
    List.nodup_range.map fun i j hij => Int.ofNat.inj (Prod.mk.inj hij).2
  have hle := (hnodup.subperm hsub).length_le
  have hlt : ((locks.filter fun lock => p.owningTile? lock = some tile).filterMap
      p.lockAt?).length < (locks.filter fun lock => p.owningTile? lock = some tile).length :=
    List.length_filterMap_lt_length_iff_exists.2
      ⟨lock, List.mem_filter.2 ⟨hlock, by simpa using ht⟩, Program.lockAt?_eq_none hnone⟩
  rw [h.length_filter, slotsBelow, List.length_map, List.length_range] at hle
  omega

/-- Locks that all have an identifier have room. -/
theorem room (h : l.Mirrors limit p locks) (hall : ∀ lock ∈ locks, (p.lockAt? lock).isSome)
    (tile : Tile) :
    (locks.filter fun lock => p.owningTile? lock = some tile).length ≤ limit tile := by
  have hsub : (l.taken.filter fun s => s.1 = tile) ⊆ slotsBelow tile (limit tile) := fun s hs => by
    obtain ⟨hmem, htile⟩ := List.mem_filter.1 hs
    obtain rfl : s.1 = tile := by simpa using htile
    exact mem_slotsBelow.2 ⟨rfl, h.inRange _ _ hmem⟩
  have hle := ((h.distinct.filter _).subperm hsub).length_le
  rw [h.length_filter, slotsBelow, List.length_map, List.length_range] at hle
  rwa [List.filterMap_length_eq_length.2 fun lock hlock => hall lock (List.mem_filter.1 hlock).1]
    at hle

/-- One more lock that has no identifier. -/
theorem snoc_none (h : l.Mirrors limit p done) (hnone : (p.op lock).lockId? = none) :
    l.Mirrors limit p (done ++ [lock]) :=
  { h with slots := by simpa [List.filterMap_append, Program.lockAt?_eq_none hnone] using h.slots }

/-- One more lock that takes its identifier. -/
theorem snoc_take (h : l.Mirrors limit p done) (ht : p.owningTile? lock = some tile)
    (hn : (p.op lock).lockId? = some n) (hrange : 0 ≤ n ∧ n < limit tile)
    (hfree : (tile, n) ∉ l.taken) : (l.take tile n).Mirrors limit p (done ++ [lock]) where
  slots := by
    rw [List.filterMap_append]
    simp only [List.filterMap_cons, Program.lockAt?_eq_some.2 ⟨ht, hn⟩, List.filterMap_nil]
    exact (h.slots.cons _).trans (List.perm_append_singleton _ _).symm
  distinct := List.nodup_cons.2 ⟨hfree, h.distinct⟩
  inRange t m hm := by
    rcases List.mem_cons.1 hm with heq | hm
    · obtain ⟨rfl, rfl⟩ := Prod.mk.inj heq
      exact hrange
    · exact h.inRange t m hm

/-- One of the locks takes an identifier. -/
theorem take (h : l.Mirrors limit p locks) (hlocks : locks.Nodup) (hlock : lock ∈ locks)
    (hnone : (p.op lock).lockId? = none) (hself : q.lockAt? lock = some (tile, n))
    (hother : ∀ c, c ≠ lock → q.lockAt? c = p.lockAt? c) (hrange : 0 ≤ n ∧ n < limit tile)
    (hfree : (tile, n) ∉ l.taken) : (l.take tile n).Mirrors limit q locks where
  slots := by
    obtain ⟨before, after, rfl⟩ := List.append_of_mem hlock
    have hfresh := List.nodup_middle.1 hlocks
    have hsame {cs : List OpId} (hcs : cs ⊆ before ++ after) :
        cs.filterMap q.lockAt? = cs.filterMap p.lockAt? :=
      List.filterMap_congr fun c hc => hother c fun heq =>
        (List.nodup_cons.1 hfresh).1 (heq ▸ hcs hc)
    have hslots := h.slots
    rw [List.filterMap_append, List.filterMap_cons_none (Program.lockAt?_eq_none hnone)] at hslots
    rw [List.filterMap_append, List.filterMap_cons_some hself,
      hsame (List.subset_append_left _ _), hsame (List.subset_append_right _ _)]
    exact (hslots.cons _).trans List.perm_middle.symm
  distinct := List.nodup_cons.2 ⟨hfree, h.distinct⟩
  inRange t m hm := by
    rcases List.mem_cons.1 hm with heq | hm
    · obtain ⟨rfl, rfl⟩ := Prod.mk.inj heq
      exact hrange
    · exact h.inRange t m hm

end Mirrors

end LockLedger

/-! ### The two loops -/

/-- The first loop gets through where all locks are placed and their identifiers in order, and then
the ledger lists the slots of those that have one. -/
theorem enterLocks_mirrors (hlocks : locks.Nodup)
    (h : runOn (locks.foldlM (enterLock model) ⟨[]⟩) p = (.ok l, q)) :
    p = q ∧ (∀ lock ∈ locks, ∃ tile, p.owningTile? lock = some tile) ∧
      l.Mirrors (fun tile => model.lockCount tile.row) p locks := by
  refine foldlM_prefix (I := fun done l r => p = r ∧
    (∀ lock ∈ done, ∃ tile, p.owningTile? lock = some tile) ∧
    l.Mirrors (fun tile => model.lockCount tile.row) p done) hlocks h
    ⟨rfl, by simp, .refl _, List.nodup_nil, by simp⟩ ?_
  rintro c - done - l l' r s ⟨rfl, hplaced, hmirrors⟩ hstep
  obtain ⟨rfl, tile, htile, hcases⟩ := enterLock_ok hstep
  refine ⟨rfl, ?_, ?_⟩
  · simpa [or_imp, forall_and] using ⟨hplaced, tile, htile⟩
  · rcases hcases with ⟨hnone, rfl⟩ | ⟨n, hn, hpos, hlimit, hfree, rfl⟩
    · exact hmirrors.snoc_none hnone
    · exact hmirrors.snoc_take htile hn ⟨hpos, hlimit⟩ hfree

/-- Locks on tiles, with identifiers in range and none given twice, can all be entered. -/
theorem enterLocks_exists (hlocks : locks.Nodup)
    (hplaced : ∀ lock ∈ locks, ∃ tile, p.owningTile? lock = some tile)
    (hrange : ∀ lock ∈ locks, ∀ tile n, p.owningTile? lock = some tile →
      (p.op lock).lockId? = some n → 0 ≤ n ∧ n < model.lockCount tile.row)
    (honce : ∀ a ∈ locks, ∀ b ∈ locks, ∀ tile n, p.owningTile? a = some tile →
      p.owningTile? b = some tile → (p.op a).lockId? = some n → (p.op b).lockId? = some n → a = b) :
    ∃ l, runOn (locks.foldlM (enterLock model) ⟨[]⟩) p = (.ok l, p) := by
  obtain ⟨l, hrun, -⟩ := foldlM_idle (p := p) (f := enterLock model) (l := locks) (a := ⟨[]⟩)
    (I := fun done l => ∀ tile n, (tile, n) ∈ l.taken →
      ∃ lock ∈ done, p.owningTile? lock = some tile ∧ (p.op lock).lockId? = some n) (by simp)
    fun done lock rest hsplit l htaken => by
      have hmem : lock ∈ locks := by simp [hsplit]
      obtain ⟨tile, htile⟩ := hplaced lock hmem
      rcases hid : (p.op lock).lockId? with _ | n
      · refine ⟨l, ?_, fun t m hm => ?_⟩
        · rw [enterLock, get_bind_ok]
          exact orFail_bind_ok.2 ⟨tile, htile, by rw [hid]; rfl⟩
        · obtain ⟨other, hother, hslot⟩ := htaken t m hm
          exact ⟨other, List.mem_append_left _ hother, hslot⟩
      · obtain ⟨hpos, hlimit⟩ := hrange lock hmem tile n htile hid
        refine ⟨_, enterLock_run htile hid hpos hlimit fun hm => ?_, fun t m hm => ?_⟩
        · obtain ⟨other, hother, hto, hno⟩ := htaken tile n hm
          obtain rfl := honce other (by simp [hsplit, hother]) lock hmem tile n hto htile hno hid
          rw [hsplit, List.nodup_append] at hlocks
          exact hlocks.2.2 other hother other List.mem_cons_self rfl
        · rcases List.mem_cons.1 hm with heq | hm
          · obtain ⟨rfl, rfl⟩ := Prod.mk.inj heq
            exact ⟨lock, by simp, htile, hid⟩
          · obtain ⟨other, hother, hslot⟩ := htaken t m hm
            exact ⟨other, List.mem_append_left _ hother, hslot⟩
  exact ⟨l, hrun⟩

namespace Program

/-- The state of the second loop when some locks are done: those of them that had no identifier got
the smallest one that was free, nothing else has changed, and the ledger lists all slots. -/
structure Choosing (p : Program) (device : OpId) (done : List OpId) (l : LockLedger) (r : Program) :
    Prop where
  within : ∀ lock ∈ done, lock ∈ p.findIn device "aie.lock"
  same : p.SameBut (fun id => id ∈ done ∧ (p.op id).lockId? = none) r
  given : ∀ before lock after, done = before ++ lock :: after → (p.op lock).lockId? = none →
    ∃ tile n, p.GivenId r device before lock tile n
  mirrors : l.Mirrors (p.lockLimit device) r (p.findIn device "aie.lock")

/-- What is in use depends on the locks before only. -/
theorem InUse.congr (h : ∀ other ∈ before, s.op other = r.op other) :
    p.InUse s device before tile n ↔ p.InUse r device before tile n := by
  refine or_congr_right (exists_congr fun other => and_congr_right fun hother => ?_)
  rw [h other hother]

/-- The identifier given to a lock depends on the locks before only. -/
theorem GivenId.congr (h : p.GivenId r device before lock tile n) (hlock : s.op lock = r.op lock)
    (hbefore : ∀ other ∈ before, s.op other = r.op other) :
    p.GivenId s device before lock tile n where
  placed := h.placed
  given := hlock.trans h.given
  nonneg := h.nonneg
  below := h.below
  free := fun huse => h.free ((InUse.congr hbefore).1 huse)
  least m hpos hm := (InUse.congr hbefore).2 (h.least m hpos hm)

/-- A lock that gets an identifier has it, and still sits where it sat. -/
theorem GivenId.samePlace (h : p.GivenId q device before lock tile n)
    (hlock : (p.op lock).is "aie.lock" = true) :
    (q.op lock).lockId? = some n ∧ (p.op lock).SamePlace (q.op lock) := by
  obtain ⟨v, hv, -⟩ := Option.bind_eq_some_iff.1 (p.owningTile?_eq lock ▸ h.placed)
  obtain ⟨a, ha, hav⟩ := Option.bind_eq_some_iff.1 hv
  obtain rfl : a = .value v := by
    cases a <;> simp_all [Attribute.value?]
  rw [h.given, Operation.take_one_append hv]
  refine ⟨rfl, rfl, rfl, ha.symm, fun htile => ?_⟩
  exact absurd (Operation.is_inj hlock htile) (by decide)

namespace Choosing

variable (h : p.Choosing device done l r)
include h

/-- A lock that was given an identifier stays where it is. -/
theorem samePlace (id : OpId) (hid : id ∈ done ∧ (p.op id).lockId? = none) :
    (p.op id).SamePlace (r.op id) := by
  obtain ⟨before, after, hsplit⟩ := List.append_of_mem hid.1
  obtain ⟨tile, n, hgiven⟩ := h.given before id after hsplit hid.2
  exact (hgiven.samePlace (List.mem_filter.1 (h.within id hid.1)).2).2

/-- Every operation belongs to the same tile as before. -/
theorem owningTile? (id : OpId) : r.owningTile? id = p.owningTile? id :=
  h.same.owningTile? h.samePlace id

/-- The operations of a name below an operation are the same as before. -/
theorem findIn (a : OpId) (name : String) : r.findIn a name = p.findIn a name :=
  h.same.findIn h.samePlace a name

/-- The ledger lists what is in use for the next lock. -/
theorem mem_taken : (tile, m) ∈ l.taken ↔ p.InUse r device done tile m := by
  rw [h.mirrors.mem_taken]
  simp only [h.owningTile?]
  constructor
  · rintro ⟨other, hother, htile, hm⟩
    rcases hid : (p.op other).lockId? with _ | k
    · -- A lock that had no identifier has one since it was done.
      by_cases hdone : other ∈ done
      · exact .inr ⟨other, hdone, htile, hm⟩
      · rw [h.same.op other fun hx => hdone hx.1, hid] at hm
        cases hm
    · rw [h.same.op other fun hx => nomatch hid.symm.trans hx.2] at hm
      exact .inl ⟨other, hother, htile, hm⟩
  · rintro (⟨other, hother, htile, hm⟩ | ⟨other, hother, htile, hm⟩)
    · refine ⟨other, hother, htile, ?_⟩
      rwa [h.same.op other fun hx => nomatch hm.symm.trans hx.2]
    · exact ⟨other, h.within other hother, htile, hm⟩

/-- One more lock is done. -/
theorem step (hlocks : (p.findIn device "aie.lock").Nodup)
    (hlt : ∀ lock ∈ p.findIn device "aie.lock", lock < p.slots.size)
    (hlock : lock ∈ p.findIn device "aie.lock") (hfresh : lock ∉ done)
    (hrun : runOn (chooseLockId (p.modelOf device) l lock) r = (.ok l', s)) :
    p.Choosing device (done ++ [lock]) l' s := by
  have hold : r.op lock = p.op lock := h.same.op lock fun hx => hfresh hx.1
  have hwithin : ∀ c ∈ done ++ [lock], c ∈ p.findIn device "aie.lock" := by
    simpa [or_imp, forall_and] using ⟨h.within, hlock⟩
  have hsame : p.SameBut (fun id => id ∈ done ++ [lock] ∧ (p.op id).lockId? = none) r :=
    h.same.mono fun id hid => ⟨List.mem_append_left _ hid.1, hid.2⟩
  rcases chooseLockId_ok hrun with ⟨hsome, rfl, rfl⟩ | ⟨hnone, tile, n, htile, hfirst, rfl, hs⟩
  · refine ⟨hwithin, hsame, fun before c after hsplit hnone => ?_, h.mirrors⟩
    rcases eq_or_of_snoc_eq hsplit with ⟨-, rfl, -⟩ | ⟨after', hsplit, -⟩
    · rw [hold, hnone] at hsome
      cases hsome
    · exact h.given before c after' hsplit hnone
  · obtain ⟨hpos, hlimit, hfree⟩ := LockLedger.firstFree?_eq_some hfirst
    have hmodify : r.SameBut (· = lock) s := hs ▸ SameBut.modify (S := (· = lock)) rfl _
    have hdone : ∀ c ∈ done, s.op c = r.op c := fun c hc =>
      hmodify.op c fun heq => hfresh (heq ▸ hc)
    have hgiven : p.GivenId s device done lock tile n := {
      placed := h.owningTile? lock ▸ htile
      given := by rw [hs, op_modify_self (h.same.size ▸ hlt lock hlock), hold]
      nonneg := hpos
      below := hlimit
      free := fun huse => hfree (h.mem_taken.2 ((InUse.congr hdone).1 huse))
      least := fun m hm hmn => (InUse.congr hdone).2
        (h.mem_taken.1 (LockLedger.firstFree?_least hfirst m hm hmn)) }
    obtain ⟨hid, hplace⟩ := hgiven.samePlace (List.mem_filter.1 hlock).2
    have hplaces : s.owningTile? = r.owningTile? :=
      funext (hmodify.owningTile? fun c hc => by rw [hc, hold]; exact hplace)
    refine ⟨hwithin, hsame.trans (hmodify.mono fun c hc => ?_), fun before c after hsplit hc => ?_,
      h.mirrors.take hlocks hlock hnone ?_ (fun c hc => ?_) ⟨hpos, hlimit⟩ hfree⟩
    · rw [hc]
      exact ⟨List.mem_append_right _ List.mem_cons_self, hold ▸ hnone⟩
    · rcases eq_or_of_snoc_eq hsplit with ⟨rfl, rfl, -⟩ | ⟨after', hsplit, -⟩
      · exact ⟨tile, n, hgiven⟩
      · obtain ⟨t, k, hbefore⟩ := h.given before c after' hsplit hc
        exact ⟨t, k, hbefore.congr (hdone c (by simp [hsplit])) fun x hx =>
          hdone x (by simp [hsplit, hx])⟩
    · exact lockAt?_eq_some.2 ⟨hplaces ▸ htile, hid⟩
    · rw [lockAt?, lockAt?, hplaces, hmodify.op c hc]

/-- The next lock gets through if the locks of the device have room. -/
theorem exists_step (hroom : ∀ tile, (p.locksOn device tile).length ≤ p.lockLimit device tile)
    (hplaced : ∀ lock ∈ p.findIn device "aie.lock", ∃ tile, p.owningTile? lock = some tile)
    (hlock : lock ∈ p.findIn device "aie.lock") :
    ∃ l' s, runOn (chooseLockId (p.modelOf device) l lock) r = (.ok l', s) := by
  rcases hid : (r.op lock).lockId? with _ | n
  · obtain ⟨tile, htile⟩ := hplaced lock hlock
    have htile : r.owningTile? lock = some tile := h.owningTile? lock ▸ htile
    obtain ⟨n, hn⟩ := h.mirrors.exists_free hlock htile hid (by
      simpa only [h.owningTile?, locksOn] using hroom tile)
    refine ⟨l.take tile n,
      r.modify lock fun op => { op with operands := op.operands.take 1 ++ [.int n] }, ?_⟩
    rw [chooseLockId, get_bind_ok, hid]
    refine orFail_bind_ok.2 ⟨tile, htile, orFail_bind_ok.2 ⟨n, hn, ?_⟩⟩
    exact bind_ok.2 ⟨(), _, runOn_update _ _ _, pure_ok.2 ⟨rfl, rfl⟩⟩
  · exact ⟨l, r, chooseLockId_run hid⟩

end Choosing

end Program

variable (hp : p.Tree)
include hp

/-- A run of the stage ends with all locks done. -/
theorem assignLockIds_choosing (h : runOn (assignLockIds device) p = (.ok (), q)) :
    (∀ lock ∈ p.findIn device "aie.lock", ∃ tile, p.owningTile? lock = some tile) ∧
    (∃ l : LockLedger, l.Mirrors (p.lockLimit device) p (p.findIn device "aie.lock")) ∧
    ∃ l, p.Choosing device (p.findIn device "aie.lock") l q := by
  have hlocks := hp.nodup_findIn device "aie.lock"
  rw [assignLockIds, get_bind_ok] at h
  obtain ⟨l, r, henter, h⟩ := bind_ok.1 h
  obtain ⟨rfl, hplaced, hmirrors⟩ := enterLocks_mirrors hlocks henter
  obtain ⟨l', r, hchoose, h⟩ := bind_ok.1 h
  obtain ⟨-, rfl⟩ := pure_ok.1 h
  refine ⟨hplaced, ⟨l, hmirrors⟩, l', ?_⟩
  exact foldlM_prefix (I := p.Choosing device) hlocks hchoose
    ⟨by simp, .refl p, by simp, hmirrors⟩ fun c hc done hfresh _ _ _ _ hr hrun =>
      hr.step hlocks (fun lock hlock => hp.sound.lt_size_of_walkIn (List.mem_filter.1 hlock).1) hc
        hfresh hrun

/-- A device whose locks can be numbered gets through. -/
theorem assignLockIds_exists (h : p.LocksFit device) :
    ∃ q, runOn (assignLockIds device) p = (.ok (), q) := by
  have hlocks := hp.nodup_findIn device "aie.lock"
  obtain ⟨l, henter⟩ : ∃ l, runOn ((p.findIn device "aie.lock").foldlM
      (enterLock (p.modelOf device)) ⟨[]⟩) p = (.ok l, p) :=
    enterLocks_exists hlocks h.placed h.inRange h.once
  obtain ⟨-, -, hmirrors⟩ := enterLocks_mirrors hlocks henter
  obtain ⟨l', q, hchoose, -⟩ := foldlM_exists (p := p) (f := chooseLockId (p.modelOf device))
    (l := p.findIn device "aie.lock") (a := l) (I := p.Choosing device)
    ⟨by simp, .refl p, by simp, hmirrors⟩ fun done c rest hsplit a r hr => by
      have hc : c ∈ p.findIn device "aie.lock" := by simp [hsplit]
      have hfresh : c ∉ done := fun hmem => by
        rw [hsplit, List.nodup_append] at hlocks
        exact hlocks.2.2 c hmem c List.mem_cons_self rfl
      obtain ⟨a', s, hrun⟩ := hr.exists_step h.room h.placed hc
      exact ⟨a', s, hrun, hr.step hlocks
        (fun lock hlock => hp.sound.lt_size_of_walkIn (List.mem_filter.1 hlock).1) hc hfresh hrun⟩
  refine ⟨q, ?_⟩
  rw [assignLockIds, get_bind_ok]
  exact bind_ok.2 ⟨l, p, henter, bind_ok.2 ⟨l', q, hchoose, pure_ok.2 ⟨rfl, rfl⟩⟩⟩

/-- After a run of the stage, every lock has an identifier, and all are in order. -/
theorem assignLockIds_numbered (h : runOn (assignLockIds device) p = (.ok (), q)) :
    ∃ l : LockLedger, q.findIn device "aie.lock" = p.findIn device "aie.lock" ∧
      q.modelOf device = p.modelOf device ∧ q.owningTile? = p.owningTile? ∧
      (∀ lock ∈ p.findIn device "aie.lock", (q.lockAt? lock).isSome) ∧
      l.Mirrors (p.lockLimit device) q (p.findIn device "aie.lock") := by
  obtain ⟨hplaced, -, l, hdone⟩ := assignLockIds_choosing hp h
  refine ⟨l, hdone.findIn _ _, hdone.same.modelOf hdone.samePlace _, funext hdone.owningTile?,
    fun lock hlock => ?_, hdone.mirrors⟩
  rw [Program.lockAt?, hdone.owningTile?]
  rcases hid : (p.op lock).lockId? with _ | n
  · obtain ⟨before, after, hsplit⟩ := List.append_of_mem hlock
    obtain ⟨tile, n, hgiven⟩ := hdone.given before lock after hsplit hid
    have hn := (hgiven.samePlace (List.mem_filter.1 hlock).2).1
    rw [hgiven.placed, hn]
    rfl
  · obtain ⟨tile, htile⟩ := hplaced lock hlock
    rw [hdone.same.op lock fun hx => nomatch hid.symm.trans hx.2]
    simp [htile, hid]

/-- A second run of the stage changes nothing. -/
theorem assignLockIds_again (h : runOn (assignLockIds device) p = (.ok (), q)) :
    runOn (assignLockIds device) q = (.ok (), q) := by
  obtain ⟨l, hfind, hmodel, -, hall, hmirrors⟩ := assignLockIds_numbered hp h
  have hslot {lock : OpId} (hlock : lock ∈ p.findIn device "aie.lock") :
      ∃ tile n, q.owningTile? lock = some tile ∧ (q.op lock).lockId? = some n := by
    obtain ⟨⟨tile, n⟩, hslot⟩ := Option.isSome_iff_exists.1 (hall lock hlock)
    exact ⟨tile, n, Program.lockAt?_eq_some.1 hslot⟩
  obtain ⟨ledger, henter⟩ : ∃ l, runOn ((p.findIn device "aie.lock").foldlM
      (enterLock (p.modelOf device)) ⟨[]⟩) q = (.ok l, q) :=
    enterLocks_exists (hp.nodup_findIn device "aie.lock")
      (fun lock hlock => (hslot hlock).imp fun _ ⟨_, ht, _⟩ => ht)
      (fun lock hlock tile n ht hn => (hmirrors.numbered (b := lock) hlock ht hn).1)
      fun a ha b hb tile n hta htb hna hnb => (hmirrors.numbered ha hta hna).2 hb htb hnb
  obtain ⟨ledger', hchoose⟩ := foldlM_idle_of_mem (p := q) (f := chooseLockId (p.modelOf device))
    (l := p.findIn device "aie.lock") (a := ledger) fun lock hlock ledger => by
      obtain ⟨tile, n, -, hn⟩ := hslot hlock
      exact ⟨ledger, chooseLockId_run hn⟩
  rw [assignLockIds, get_bind_ok, hfind, hmodel]
  exact bind_ok.2 ⟨ledger, q, henter, bind_ok.2 ⟨ledger', q, hchoose, rfl⟩⟩

/-- The locks of a device are numbered exactly when each sits on a tile, the identifiers that are
written are in range and written once on each tile, and no tile carries more locks than it has
identifiers. Then nothing but the operands of the locks without an identifier changes, each of them
gets, in program order, the smallest one that is neither written on its tile nor given to a lock
there before, and a second run changes nothing. -/
theorem assignLockIds_iff (device : OpId) :
    ((∃ q, runOn (assignLockIds device) p = (.ok (), q)) ↔ p.LocksFit device) ∧
      ∀ q, runOn (assignLockIds device) p = (.ok (), q) →
        p.SameBut (fun id => id ∈ p.findIn device "aie.lock" ∧ (p.op id).lockId? = none) q ∧
        (∀ before lock after, p.findIn device "aie.lock" = before ++ lock :: after →
          (p.op lock).lockId? = none → ∃ tile n, p.GivenId q device before lock tile n) ∧
        runOn (assignLockIds device) q = (.ok (), q) := by
  refine ⟨⟨fun ⟨q, hrun⟩ => ?_, assignLockIds_exists hp⟩, fun q hrun => ?_⟩
  · obtain ⟨hplaced, ⟨l, hmirrors⟩, -⟩ := assignLockIds_choosing hp hrun
    obtain ⟨l', -, -, hplaces, hall, hmirrors'⟩ := assignLockIds_numbered hp hrun
    refine ⟨hplaced, fun lock hlock tile n ht hn => (hmirrors.numbered (b := lock) hlock ht hn).1,
      fun a ha b hb tile n hta htb hna hnb => (hmirrors.numbered ha hta hna).2 hb htb hnb,
      fun tile => ?_⟩
    simpa only [hplaces, Program.locksOn] using hmirrors'.room hall tile
  · obtain ⟨-, -, l, hdone⟩ := assignLockIds_choosing hp hrun
    exact ⟨hdone.same, hdone.given, assignLockIds_again hp hrun⟩

omit hp

/-- Locks of one tile that is named twice, with an identifier written between two others. -/
def gapSource : String :=
  "aie.device(ipu) \x7b %t = aie.tile(0, 2) %u = aie.tile(0, 2)\n" ++
  "%a = aie.lock(%t) %b = aie.lock(%u, 1) %c = aie.lock(%u) \x7d"

/-- The locks without an identifier get those around the one that is written. -/
theorem assignLockIds_iff_gap : ∃ p q, Source.parse gapSource = .ok p ∧ p.Tree ∧
    runOn (assignLockIds 0) p = (.ok (), q) ∧ p.LocksFit 0 ∧
    runOn (assignLockIds 0) q = (.ok (), q) ∧ (q.op 3).lockId? = some 0 ∧
    (q.op 4).lockId? = some 1 ∧ (q.op 5).lockId? = some 2 ∧
    ∃ tile n, p.GivenId q 0 [3, 4] 5 tile n := by
  have hsource : ∃ p, Source.parse gapSource = .ok p ∧
      (runOn (assignLockIds 0) p).1.toOption = some () ∧
      p.findIn 0 "aie.lock" = [3, 4, 5] ∧ (p.op 5).lockId? = none ∧
      ((runOn (assignLockIds 0) p).2.op 3).lockId? = some 0 ∧
      ((runOn (assignLockIds 0) p).2.op 4).lockId? = some 1 ∧
      ((runOn (assignLockIds 0) p).2.op 5).lockId? = some 2 :=
    exists_ok_of_any (by decide +kernel)
  obtain ⟨p, hparse, hok, hlocks, hnone, h3, h4, h5⟩ := hsource
  obtain ⟨hsound, -, haside⟩ := Source.parse_ok hparse
  have htree := hsound.toWellFormed.tree haside
  have hrun := eq_ok_of_toOption hok
  obtain ⟨hfit, hall⟩ := assignLockIds_iff htree 0
  obtain ⟨-, hgiven, hagain⟩ := hall _ hrun
  exact ⟨p, _, hparse, htree, hrun, hfit.1 ⟨_, hrun⟩, hagain, h3, h4, h5,
    hgiven [3, 4] 5 [] hlocks hnone⟩

end TileFlow
