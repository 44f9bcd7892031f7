import TileFlow.Proofs.Program.Dictionary
import TileFlow.Proofs.Stage.Edits

/-!
# Addresses of buffers

The stage that lays out buffers changes nothing but addresses. In the end every buffer of a device
sits on a tile and has a size and an address, be it one that it came with and that was checked or
one that was chosen for it.

## Main definitions

* `Operation.IsSized`, `Operation.IsLaidOut`: buffers that passed the check, and that have a place.
* `Operation.EndsBy`: operations that end at or before an address.
* `EditRule.addresses`: the edits of the stage.
* `Program.LaidOut`, `Program.Placed`: devices whose buffers have addresses, and tiles.

## Main results

* `layOutTile_ok`: the buffers of one tile.
* `assignBufferAddresses_edits`: the buffers of every device.
* `assignBufferAddresses_failsOnly`: with identifiers, no lock is a reason to give up.
-/

namespace TileFlow

open TileFlow.Action

variable {p q r s : Program} {device buffer : OpId}

/-! ### Buffers -/

/-- Whether an address is not negative, and neither is the end of what an operation has there out of
range. -/
def Operation.FitsAt (op : Operation) (address : Int) : Prop :=
  0 ≤ address ∧ ∀ size, op.intAttr? "size" = some size →
    (Integer.checkedAdd address size).isSome = true

/-- Whether an operation with an address and a size ends at or before some address. -/
def Operation.EndsBy (op : Operation) (n : Int) : Prop :=
  ∀ address size, op.intAttr? "address" = some address → op.intAttr? "size" = some size →
    address + size ≤ n

/-- Whether an operation has a positive size, and fits at its address if it has one. -/
def Operation.IsSized (op : Operation) : Prop :=
  ∃ size, op.intAttr? "size" = some size ∧ 0 < size ∧
    ∀ address, op.intAttr? "address" = some address → op.FitsAt address

/-- Whether an operation has a positive size, and an address at which it fits. -/
def Operation.IsLaidOut (op : Operation) : Prop :=
  ∃ size address, op.intAttr? "size" = some size ∧ 0 < size ∧
    op.intAttr? "address" = some address ∧ op.FitsAt address

/-- An integer attribute after one was set. -/
theorem Operation.intAttr?_withAttr (op : Operation) (key : String) (n : Int) (k : String) :
    (op.withAttr key (.int n)).intAttr? k = if key = k then some n else op.intAttr? k := by
  rw [intAttr?, attr?, withAttr, Dictionary.get?_insert]
  split <;> rfl

/-- What ends by some address ends by every later one. -/
theorem Operation.EndsBy.mono {op : Operation} {m n : Int} (h : op.EndsBy m) (hn : m ≤ n) :
    op.EndsBy n :=
  fun x s hx hs => Int.le_trans (h x s hx hs) hn

/-- A sized buffer with an address it fits at is laid out. -/
theorem Operation.IsSized.withAddress {op : Operation} (h : op.IsSized) {n : Int}
    (hn : op.FitsAt n) : (op.withAttr "address" (.int n)).IsLaidOut := by
  have hsizes : (op.withAttr "address" (.int n)).intAttr? "size" = op.intAttr? "size" := by
    rw [intAttr?_withAttr, if_neg (by decide)]
  obtain ⟨size, hsize, hpos, -⟩ := h
  refine ⟨size, n, hsizes.trans hsize, hpos, ?_, hn.1, fun m hm => hn.2 m (hsizes ▸ hm)⟩
  rw [intAttr?_withAttr, if_pos rfl]

/-- A buffer that is laid out is sized. -/
theorem Operation.IsLaidOut.isSized {op : Operation} (h : op.IsLaidOut) : op.IsSized := by
  obtain ⟨size, address, hsize, hpos, haddress, hfits⟩ := h
  refine ⟨size, hsize, hpos, fun a ha => ?_⟩
  rw [haddress] at ha
  cases ha
  exact hfits

/-- A sized buffer that has an address is laid out. -/
theorem Operation.IsSized.isLaidOut {op : Operation} (h : op.IsSized) {address : Int}
    (haddress : op.intAttr? "address" = some address) : op.IsLaidOut := by
  obtain ⟨size, hsize, hpos, hfits⟩ := h
  exact ⟨size, address, hsize, hpos, haddress, hfits address haddress⟩

/-- Buffers get addresses. -/
def EditRule.addresses : EditRule where
  creates _ _ _ := False
  changes p id op := (p.op id).is "aie.buffer" = true ∧
    ∃ n, (p.op id).FitsAt n ∧ op = (p.op id).withAttr "address" (.int n)
  erases _ _ := False

/-- Giving an address keeps the kind of an operation. -/
theorem EditRule.addresses_is {id : OpId} {op : Operation} (h : EditRule.addresses.changes p id op)
    (name : String) : op.is name = (p.op id).is name := by
  obtain ⟨-, n, -, rfl⟩ := h
  rfl

/-- Giving buffers addresses leaves devices alone. -/
theorem EditRule.addresses_sparesDevices : EditRule.addresses.SparesDevices where
  creates _ _ _ hop := hop.elim
  changes _ _ _ hop := addresses_is hop _
  erases _ _ hop := hop.elim

/-- Giving buffers addresses creates nothing. -/
theorem EditRule.addresses_names : EditRule.addresses.Names [] where
  creates _ _ _ hop := hop.elim
  changes p id op hop := by
    obtain ⟨-, n, -, rfl⟩ := hop
    exact .inl rfl

/-- Sized operations stay sized while addresses are given. -/
theorem EditRule.addresses_keeps_isSized : EditRule.addresses.Keeps Operation.IsSized where
  header a b hab ha := by
    simp only [Operation.IsSized, Operation.FitsAt, hab.intAttr?]
    exact ha
  creates _ _ _ hop := hop.elim
  changes p id op hop ha := by
    obtain ⟨-, n, hn, rfl⟩ := hop
    exact (ha.withAddress hn).isSized

/-- Operations that are laid out stay so while addresses are given. -/
theorem EditRule.addresses_keeps_isLaidOut : EditRule.addresses.Keeps Operation.IsLaidOut where
  header a b hab ha := by
    simp only [Operation.IsLaidOut, Operation.FitsAt, hab.intAttr?]
    exact ha
  creates _ _ _ hop := hop.elim
  changes p id op hop ha := by
    obtain ⟨-, n, hn, rfl⟩ := hop
    exact ha.isSized.withAddress hn

/-- Buffers that are laid out stay so while addresses are given. -/
theorem EditRule.addresses_keeps_laidOut :
    EditRule.addresses.Keeps fun op => op.is "aie.buffer" = true → op.IsLaidOut where
  header a b hab ha hb := addresses_keeps_isLaidOut.header a b hab (ha (by rwa [hab.is] at hb))
  creates _ _ _ hop := hop.elim
  changes p id op hop ha hb :=
    addresses_keeps_isLaidOut.changes p id op hop (ha (by rwa [addresses_is hop] at hb))

/-! ### Checks and places -/

/-- A checked sum is the sum. -/
theorem checkedAdd_eq_some {a b c : Int} (h : Integer.checkedAdd a b = some c) : c = a + b := by
  rw [Integer.checkedAdd] at h
  split at h
  · exact (Option.some.inj h).symm
  · cases h

/-- An address that is not negative stays so when aligned. -/
theorem alignUp?_nonneg {a b : Int} (ha : 0 ≤ a) (h : alignUp? a = some b) : 0 ≤ b := by
  obtain ⟨c, hc, rfl⟩ := Option.map_eq_some_iff.1 h
  have hsum := checkedAdd_eq_some hc
  have hc' : 0 ≤ c := by
    rw [hsum, bufferAlignment]
    omega
  exact Int.mul_nonneg (Int.tdiv_nonneg hc' (by decide)) (by decide)

/-- Checking a buffer moves the next address past it. -/
theorem checkBuffer_ok {next next' : Int}
    (h : runOn (checkBuffer next buffer) p = (.ok next', q)) :
    p = q ∧ next ≤ next' ∧ (p.op buffer).IsSized ∧ (p.op buffer).EndsBy next' := by
  rw [checkBuffer, get_bind_ok] at h
  obtain ⟨size, hsize, h⟩ := orFail_bind_ok.1 h
  obtain ⟨hpos, h⟩ := ensure_bind_ok.1 h
  have hpos' : 0 < size := by simpa using hpos
  split at h
  · rename_i hnone
    obtain ⟨rfl, rfl⟩ := pure_ok.1 h
    exact ⟨rfl, Int.le_refl _, ⟨size, hsize, hpos', fun a ha => by rw [hnone] at ha; cases ha⟩,
      fun a m ha => by rw [hnone] at ha; cases ha⟩
  · rename_i address haddress
    obtain ⟨hnonneg, h⟩ := ensure_bind_ok.1 h
    obtain ⟨stop, hstop, h⟩ := orFail_bind_ok.1 h
    obtain ⟨rfl, rfl⟩ := pure_ok.1 h
    refine ⟨rfl, Int.le_max_left _ _, ⟨size, hsize, hpos', fun a ha => ?_⟩, fun a m ha hm => ?_⟩
    · rw [haddress] at ha
      cases ha
      refine ⟨by simpa using hnonneg, fun n hn => ?_⟩
      obtain rfl : size = n := Option.some.inj (hsize.symm.trans hn)
      rw [hstop]
      rfl
    · obtain rfl : address = a := Option.some.inj (haddress.symm.trans ha)
      obtain rfl : size = m := Option.some.inj (hsize.symm.trans hm)
      exact checkedAdd_eq_some hstop ▸ Int.le_max_right _ _

/-- Checking several buffers moves the next address past all of them. -/
theorem checkBuffers_ok {buffers : List OpId} {next next' : Int}
    (h : runOn (buffers.foldlM checkBuffer next) p = (.ok next', q)) :
    p = q ∧ next ≤ next' ∧
      ∀ buffer ∈ buffers, (p.op buffer).IsSized ∧ (p.op buffer).EndsBy next' := by
  induction buffers generalizing next with
  | nil =>
      obtain ⟨rfl, rfl⟩ := foldlM_nil_ok.1 h
      exact ⟨rfl, Int.le_refl _, fun _ hb => nomatch hb⟩
  | cons buffer buffers ih =>
      obtain ⟨n, r, hcheck, h⟩ := foldlM_cons_ok.1 h
      obtain ⟨rfl, hle, hsized, hends⟩ := checkBuffer_ok hcheck
      obtain ⟨rfl, hle', hall⟩ := ih h
      refine ⟨rfl, Int.le_trans hle hle', fun b hb => ?_⟩
      rcases List.mem_cons.1 hb with rfl | hb
      · exact ⟨hsized, hends.mono hle'⟩
      · exact hall b hb

/-- A buffer that passed the check stays where it is, or is put behind an address. -/
theorem placeBuffer_cases {tile : Tile} {limit next next' : Int} (hsized : (p.op buffer).IsSized)
    (h : runOn (placeBuffer tile limit next buffer) p = (.ok next', q)) :
    ((∃ address, (p.op buffer).intAttr? "address" = some address) ∧ next' = next ∧ q = p) ∨
      (p.op buffer).intAttr? "address" = none ∧ ∃ size address,
        (p.op buffer).intAttr? "size" = some size ∧ alignUp? next = some address ∧
        Integer.checkedAdd address size = some next' ∧ next' ≤ limit ∧
        q = p.modify buffer (·.withAttr "address" (.int address)) := by
  rw [placeBuffer, get_bind_ok] at h
  split at h
  · rename_i size hnone hsize
    obtain ⟨address, haddress, h⟩ := orFail_bind_ok.1 h
    obtain ⟨stop, hstop, h⟩ := orFail_bind_ok.1 h
    obtain ⟨hlimit, h⟩ := ensure_bind_ok.1 h
    obtain ⟨_, r, hupdate, h⟩ := bind_ok.1 h
    rw [runOn_update, Prod.mk.injEq] at hupdate
    obtain ⟨-, rfl⟩ := hupdate
    obtain ⟨rfl, rfl⟩ := pure_ok.1 h
    exact .inr ⟨hnone, size, address, hsize, haddress, hstop, by simpa using hlimit, rfl⟩
  · rename_i hother
    obtain ⟨rfl, rfl⟩ := pure_ok.1 h
    refine .inl ⟨?_, rfl, rfl⟩
    obtain ⟨n, hn, -⟩ := hsized
    rcases haddress : (p.op buffer).intAttr? "address" with _ | address
    · exact absurd hn (hother n haddress)
    · exact ⟨address, rfl⟩

/-- A buffer that passed the check gets an address, if it has none. -/
theorem placeBuffer_ok {tile : Tile} {limit next next' : Int} (hlt : buffer < p.slots.size)
    (hname : (p.op buffer).is "aie.buffer" = true) (hsized : (p.op buffer).IsSized)
    (hnext : 0 ≤ next) (h : runOn (placeBuffer tile limit next buffer) p = (.ok next', q)) :
    p.Edits .addresses q ∧ 0 ≤ next' ∧ (q.op buffer).IsLaidOut := by
  rcases placeBuffer_cases hsized h with
    ⟨⟨address, haddress⟩, rfl, rfl⟩ | ⟨hnone, size, address, hsize, haddress, hstop, -, rfl⟩
  · exact ⟨.refl, hnext, hsized.isLaidOut haddress⟩
  · have hnonneg := alignUp?_nonneg hnext haddress
    have hsum := checkedAdd_eq_some hstop
    obtain ⟨n, hn, hpos, -⟩ := id hsized
    obtain rfl : size = n := Option.some.inj (hsize.symm.trans hn)
    have hfits : (p.op buffer).FitsAt address := by
      refine ⟨hnonneg, fun m hm => ?_⟩
      obtain rfl : size = m := Option.some.inj (hsize.symm.trans hm)
      rw [hstop]
      rfl
    refine ⟨.single (.change buffer _ hlt ⟨hname, address, hfits, rfl⟩ rfl), by omega, ?_⟩
    rw [Program.op_modify_self hlt]
    exact hsized.withAddress hfits

/-- Placing buffers gives every one of them an address that fits. -/
theorem placeBuffers_ok {tile : Tile} {limit next next' : Int} {buffers : List OpId}
    (hp : p.Sound) (hbuffers : ∀ buffer ∈ buffers, buffer < p.slots.size ∧
      (p.op buffer).is "aie.buffer" = true ∧ (p.op buffer).IsSized) (hnext : 0 ≤ next)
    (h : runOn (buffers.foldlM (placeBuffer tile limit) next) p = (.ok next', q)) :
    p.Edits .addresses q ∧ ∀ buffer ∈ buffers, (q.op buffer).IsLaidOut := by
  induction buffers generalizing p next with
  | nil =>
      obtain ⟨-, rfl⟩ := foldlM_nil_ok.1 h
      exact ⟨.refl, fun _ hb => nomatch hb⟩
  | cons buffer buffers ih =>
      obtain ⟨n, r, hplace, h⟩ := foldlM_cons_ok.1 h
      obtain ⟨hlt, hname, hsized⟩ := hbuffers buffer List.mem_cons_self
      obtain ⟨hedits, hn, hlaid⟩ := placeBuffer_ok hlt hname hsized hnext hplace
      have hr := hedits.sound hp
      obtain ⟨hrest, hall⟩ := ih hr (fun b hb => by
        obtain ⟨hltb, hnameb, hsizedb⟩ := hbuffers b (List.mem_cons_of_mem _ hb)
        have hltr := Nat.lt_of_lt_of_le hltb (hedits.size_le hp)
        refine ⟨hltr, ?_, hedits.keeps EditRule.addresses_keeps_isSized hp hltr fun _ => hsizedb⟩
        rw [hedits.is_eq hp (fun _ _ _ hop => EditRule.addresses_is hop _) hltb, hnameb]) hn h
      refine ⟨hedits.trans hrest, fun b hb => ?_⟩
      rcases List.mem_cons.1 hb with rfl | hb
      · exact hrest.keeps EditRule.addresses_keeps_isLaidOut hr
          (Nat.lt_of_lt_of_le (Nat.lt_of_lt_of_le hlt (hedits.size_le hp)) (hrest.size_le hr))
          fun _ => hlaid
      · exact hall b hb

/-- The buffers of a tile get addresses. -/
theorem layOutTile_ok {model : DeviceModel} {coreTiles : List Tile} {g : TileBuffers}
    (hp : p.Sound) (hbuffers : ∀ buffer ∈ g.buffers, buffer < p.slots.size ∧
      (p.op buffer).is "aie.buffer" = true)
    (h : runOn (layOutTile model coreTiles g) p = (.ok (), q)) :
    p.Edits .addresses q ∧ ∀ buffer ∈ g.buffers, (q.op buffer).IsLaidOut := by
  rw [layOutTile] at h
  obtain ⟨next, r, hcheck, h⟩ := bind_ok.1 h
  obtain ⟨rfl, hle, hsized⟩ := checkBuffers_ok hcheck
  obtain ⟨_, s, hplace, h⟩ := bind_ok.1 h
  obtain ⟨-, rfl⟩ := pure_ok.1 h
  have hstart : (0 : Int) ≤ if g.tile ∈ coreTiles then model.stackSize else 0 := by
    split
    · exact (by decide : (0 : Int) ≤ 0x400)
    · exact Int.le_refl _
  exact placeBuffers_ok hp (fun b hb => ⟨(hbuffers b hb).1, (hbuffers b hb).2, (hsized b hb).1⟩)
    (Int.le_trans hstart hle) hplace

/-! ### Buffers by tile -/

/-- Grouping a buffer adds it and loses none. -/
theorem mem_insertBuffer {tile : Tile} {groups : List TileBuffers} {b : OpId} :
    (∃ g ∈ insertBuffer tile buffer groups, b ∈ g.buffers) ↔
      b = buffer ∨ ∃ g ∈ groups, b ∈ g.buffers := by
  induction groups with
  | nil => simp [insertBuffer]
  | cons g groups ih =>
      rw [insertBuffer]
      split
      · simp only [List.mem_cons, exists_eq_or_imp, List.mem_append, List.not_mem_nil, or_false]
        rw [or_assoc]
        exact or_left_comm
      · split
        · simp
        · simp only [List.mem_cons, exists_eq_or_imp, ih]
          exact or_left_comm

/-- Every buffer is put with those of its tile, and no other operation is. -/
theorem groupBuffers_ok {buffers : List OpId} {groups groups' : List TileBuffers}
    (h : runOn (buffers.foldlM groupBuffer groups) p = (.ok groups', q)) :
    p = q ∧ (∀ b, (∃ g ∈ groups', b ∈ g.buffers) ↔ b ∈ buffers ∨ ∃ g ∈ groups, b ∈ g.buffers) ∧
      ∀ b ∈ buffers, ∃ tile, p.owningTile? b = some tile := by
  induction buffers generalizing groups with
  | nil =>
      obtain ⟨rfl, rfl⟩ := foldlM_nil_ok.1 h
      exact ⟨rfl, fun b => by simp, fun _ hb => nomatch hb⟩
  | cons buffer buffers ih =>
      obtain ⟨groups₁, r, hgroup, h⟩ := foldlM_cons_ok.1 h
      rw [groupBuffer, get_bind_ok] at hgroup
      obtain ⟨tile, htile, hgroup⟩ := orFail_bind_ok.1 hgroup
      obtain ⟨rfl, rfl⟩ := pure_ok.1 hgroup
      obtain ⟨rfl, hall, hplaced⟩ := ih h
      refine ⟨rfl, fun b => ?_, List.forall_mem_cons.2 ⟨⟨tile, htile⟩, hplaced⟩⟩
      rw [hall, mem_insertBuffer, List.mem_cons]
      exact or_left_comm.trans or_assoc.symm

/-- The check of the locks changes nothing. -/
theorem checkLocks_ok {l : List OpId} {e : OpId → StageError}
    (h : runOn (l.forM fun lock => ensure (r.op lock).lockId?.isSome (e lock)) p = (.ok (), q)) :
    p = q :=
  forM_induction (I := fun s => p = s) h rfl fun _ _ _ _ hs hrun => hs.trans (ensure_ok.1 hrun).2

/-- The buffers of a device sit on tiles and get addresses. -/
theorem assignBufferAddresses_ok (hp : p.Sound)
    (h : runOn (assignBufferAddresses device) p = (.ok (), q)) :
    p.Edits .addresses q ∧ ∀ buffer ∈ p.findIn device "aie.buffer",
      (q.op buffer).IsLaidOut ∧ ∃ tile, p.owningTile? buffer = some tile := by
  rw [assignBufferAddresses, get_bind_ok] at h
  obtain ⟨_, r, hlocks, h⟩ := bind_ok.1 h
  obtain rfl := checkLocks_ok hlocks
  obtain ⟨groups, r, hgroups, h⟩ := bind_ok.1 h
  obtain ⟨rfl, hall, hplaced⟩ := groupBuffers_ok hgroups
  have hmem : ∀ g ∈ groups, ∀ b ∈ g.buffers, b < p.slots.size ∧
      (p.op b).is "aie.buffer" = true := fun g hg b hb => by
    obtain ⟨hin, hname⟩ := List.mem_filter.1 (((hall b).1 ⟨g, hg, hb⟩).resolve_right (by simp))
    exact ⟨hp.lt_size_of_walkIn hin, hname⟩
  obtain ⟨hedits, hdone⟩ := forM_edits_done
    (D := fun g r => ∀ b ∈ g.buffers, (r.op b).IsLaidOut) hp h
    (fun g hg r s hr hedits hrun => layOutTile_ok hr (fun b hb => by
      obtain ⟨hlt, hname⟩ := hmem g hg b hb
      refine ⟨Nat.lt_of_lt_of_le hlt (hedits.size_le hp), ?_⟩
      rw [hedits.is_eq hp (fun _ _ _ hop => EditRule.addresses_is hop _) hlt, hname]) hrun)
    fun g hg r s hr hedits hlaid b hb =>
      hedits.keeps EditRule.addresses_keeps_isLaidOut (hr.sound hp)
        (Nat.lt_of_lt_of_le (hmem g hg b hb).1 ((hr.trans hedits).size_le hp))
        fun _ => hlaid b hb
  refine ⟨hedits, fun b hb => ⟨?_, hplaced b hb⟩⟩
  obtain ⟨g, hg, hbg⟩ := (hall b).2 (.inl hb)
  exact hdone g hg b hbg

/-! ### Failures -/

/-- Whether an error is another one than that of a lock without an identifier. -/
def StageError.NotLockIdMissing (e : StageError) : Prop :=
  ∀ label, e ≠ .lockIdMissing label

/-- Laying out a tile never fails for a missing lock identifier. -/
theorem layOutTile_failsOnly (model : DeviceModel) (coreTiles : List Tile) (g : TileBuffers) :
    FailsOnly StageError.NotLockIdMissing (layOutTile model coreTiles g) := by
  have hcheck (next : Int) (buffer : OpId) :
      FailsOnly StageError.NotLockIdMissing (checkBuffer next buffer) := by
    refine failsOnly_get.bind fun p => (failsOnly_orFail _ nofun).bind fun size =>
      (failsOnly_ensure _ nofun).bind fun _ => ?_
    split
    · exact failsOnly_pure _
    · exact (failsOnly_ensure _ nofun).bind fun _ =>
        (failsOnly_orFail _ nofun).bind fun _ => failsOnly_pure _
  have hplace (tile : Tile) (limit next : Int) (buffer : OpId) :
      FailsOnly StageError.NotLockIdMissing (placeBuffer tile limit next buffer) := by
    refine failsOnly_get.bind fun p => ?_
    split
    · exact (failsOnly_orFail _ nofun).bind fun _ => (failsOnly_orFail _ nofun).bind fun _ =>
        (failsOnly_ensure _ nofun).bind fun _ =>
          (failsOnly_update _ _).bind fun _ => failsOnly_pure _
    · exact failsOnly_pure _
  exact (failsOnly_foldlM hcheck _ _).bind fun _ =>
    (failsOnly_foldlM (hplace _ _) _ _).bind fun _ => failsOnly_pure _

/-- Grouping a buffer never fails for a missing lock identifier. -/
theorem groupBuffer_failsOnly (groups : List TileBuffers) (buffer : OpId) :
    FailsOnly StageError.NotLockIdMissing (groupBuffer groups buffer) :=
  failsOnly_get.bind fun _ => (failsOnly_orFail _ nofun).bind fun _ => failsOnly_pure _

/-- When the locks of a device have identifiers, its layout fails for other reasons. -/
theorem assignBufferAddresses_failsOnly
    (hlocks : ∀ lock ∈ p.findIn device "aie.lock", (p.op lock).lockId?.isSome = true)
    {e : StageError} (h : runOn (assignBufferAddresses device) p = (.error e, q)) :
    e.NotLockIdMissing := by
  rw [assignBufferAddresses] at h
  rcases bind_error.1 h with h | ⟨_, _, hget, h⟩
  · cases h
  · cases hget
    rcases bind_error.1 h with h | ⟨_, r, -, h⟩
    · -- The check passes for every lock.
      obtain ⟨lock, hlock, r, -, h⟩ := forM_error (I := fun _ => True) h trivial
        fun _ _ _ _ _ _ => trivial
      rw [hlocks lock hlock] at h
      cases h
    · refine FailsOnly.bind (failsOnly_foldlM groupBuffer_failsOnly _ _)
        (fun groups => failsOnly_forM (layOutTile_failsOnly _ _) groups) r e q h

/-! ### All devices -/

namespace Program

/-- Every buffer of a device has a size and an address. -/
def LaidOut (p : Program) (device : OpId) : Prop :=
  ∀ id ∈ p.walkIn device, (p.op id).is "aie.buffer" = true → (p.op id).IsLaidOut

/-- Every buffer of a device sits on a tile. -/
def Placed (p : Program) (device : OpId) : Prop :=
  ∀ buffer ∈ p.findIn device "aie.buffer", ∃ tile, p.owningTile? buffer = some tile

/-- The layout finds no new buffers. -/
theorem Edits.findIn_addresses (hp : p.Sound) (h : p.Edits .addresses q) (hdevice : device ∈ q.walk)
    (hbuffer : buffer ∈ q.findIn device "aie.buffer") : buffer ∈ p.findIn device "aie.buffer" := by
  obtain ⟨hin, hname⟩ := List.mem_filter.1 hbuffer
  have hev := h.evolves hp
  have hsize := h.size_eq fun _ _ _ hop => hop
  have hlt : buffer < p.slots.size := hsize ▸ hev.sound.lt_size_of_walkIn hin
  refine List.mem_filter.2 ⟨hev.mem_walkIn hdevice hin hlt, ?_⟩
  rw [← h.is_eq hp (fun _ _ _ hop => EditRule.addresses_is hop _) hlt, hname]

/-- An operation sits where it sat when buffers are laid out. -/
theorem Edits.owningTile?_addresses (hp : p.Sound) (hvalues : p.definedValues.Nodup)
    (h : p.Edits .addresses q) {id : OpId} (hlt : id < p.slots.size) {tile : Tile}
    (htile : p.owningTile? id = some tile) : q.owningTile? id = some tile := by
  have hresolves : q.Resolves p := h.resolves hp
    (fun r id op ⟨_, n, _, hop⟩ => hop ▸ ⟨rfl, rfl, fun _ => rfl, fun _ hv => hv⟩)
    fun _ _ _ hop => hop.elim
  have hoperands := (h.operands_eq (P := fun _ => True) hp (fun _ _ _ _ => trivial)
    (fun r id op ⟨_, n, _, hop⟩ _ => ⟨trivial, hop ▸ rfl⟩) hlt trivial).2
  rw [owningTile?_eq] at htile ⊢
  obtain ⟨v, hv, hplace⟩ := Option.bind_eq_some_iff.1 htile
  rw [Operation.operandValue?, hoperands]
  exact Option.bind_eq_some_iff.2 ⟨v, hv, hresolves.placeOf? (h.nodup hp hvalues) hplace⟩

/-- A device that is placed stays so while addresses are given. -/
theorem Placed.edits (hplaced : p.Placed device) (hp : p.Sound) (hvalues : p.definedValues.Nodup)
    (h : p.Edits .addresses q) (hdevice : device ∈ q.walk) : q.Placed device := by
  intro buffer hbuffer
  have hold := h.findIn_addresses hp hdevice hbuffer
  obtain ⟨tile, htile⟩ := hplaced buffer hold
  exact ⟨tile, h.owningTile?_addresses hp hvalues
    (hp.lt_size_of_walkIn (List.mem_filter.1 hold).1) htile⟩

end Program

/-- The buffers of all devices sit on tiles and get addresses. -/
theorem assignBufferAddresses_edits (hp : p.Sound) (hvalues : p.definedValues.Nodup)
    (h : runOn Stage.assignBufferAddresses.action p = (.ok (), q)) :
    p.Edits .addresses q ∧ (∀ device ∈ q.devices, q.LaidOut device) ∧
      ∀ device ∈ q.devices, q.Placed device := by
  have hspares := EditRule.addresses_sparesDevices
  suffices hdone : p.Edits .addresses q ∧ ∀ device ∈ q.devices,
      q.definedValues.Nodup ∧ q.LaidOut device ∧ q.Placed device from
    ⟨hdone.1, fun device hdevice => (hdone.2 device hdevice).2.1,
      fun device hdevice => (hdone.2 device hdevice).2.2⟩
  refine Stage.onEachDevice_ok
    (D := fun device r => r.definedValues.Nodup ∧ r.LaidOut device ∧ r.Placed device) hspares hp h
    (fun device r s hr hpr hdevice hrun => ?_) fun device r s hr hdevice hedits hold => ?_
  · have hvaluesr := hpr.nodup hp hvalues
    obtain ⟨hedits, hall⟩ := assignBufferAddresses_ok hr hrun
    have hwalk := Program.mem_walk_of_mem_devices ((hedits.mem_devices hspares hr).2 hdevice)
    have hplaced : r.Placed device := fun buffer hbuffer => (hall buffer hbuffer).2
    refine ⟨hedits, hedits.nodup hr hvaluesr, fun id hid hname => ?_,
      hplaced.edits hr hvaluesr hedits hwalk⟩
    exact (hall id (hedits.findIn_addresses hr hwalk (List.mem_filter.2 ⟨hid, hname⟩))).1
  · obtain ⟨hvaluesr, hlaid, hplaced⟩ := hold
    have hwalk := Program.mem_walk_of_mem_devices hdevice
    exact ⟨hedits.nodup hr hvaluesr,
      hedits.forall_walkIn EditRule.addresses_keeps_laidOut hr hwalk hlaid,
      hplaced.edits hr hvaluesr hedits hwalk⟩

end TileFlow
