import Mathlib.Data.List.Pairwise
import TileFlow.Proofs.Memory.Layout
import TileFlow.Proofs.Device.Placement
import TileFlow.Proofs.Stage.Confined
import TileFlow.Proofs.Stage.Pipeline

/-!
# Buffers that share a tile

The buffers of a tile are laid out in two passes. The first one finds the end of all buffers that
came with an address, be they in order or on top of each other, and the second one puts the others
behind it, one behind the other. So a buffer that was given an address overlaps nothing, and fits
into the memory of its tile with all that lies below it. Whether the buffers that came with an
address fit, or overlap, is not asked for their own sake.

## Main definitions

* `Program.Unaddressed`: the buffers that are given an address.
* `Operation.Apart`, `Operation.PutAt`: where buffers lie, and how they come there.
* `Program.Packed`: what becomes of the buffers of one tile.
* `Program.Assigned`: what holds of a buffer that was given an address.

## Main results

* `groupBuffers_grouped`: each group holds all buffers of its tile.
* `layOutTile_packed`: the layout of one tile.
* `assignBufferAddresses_assigned`: a buffer that is given an address overlaps no other one.
* `assignBufferAddresses_handPlaced`: what is checked of a buffer that came with an address.
-/

namespace TileFlow

open TileFlow.Action

variable {p q r : Program} {device buffer : OpId} {tile : Tile} {a b : Operation}

/-! ### Where buffers lie -/

namespace Operation

/-- Whether two operations with addresses and sizes do not overlap. -/
def Apart (a b : Operation) : Prop :=
  ∀ x m y n, a.intAttr? "address" = some x → a.intAttr? "size" = some m →
    b.intAttr? "address" = some y → b.intAttr? "size" = some n → x + m ≤ y ∨ y + n ≤ x

/-- Being apart is symmetric. -/
theorem Apart.symm (h : a.Apart b) : b.Apart a :=
  fun x m y n hx hm hy hn => (h y n x m hy hn hx hm).symm

/-- What ends before another operation starts is apart from it. -/
theorem EndsBy.apart {n : Int} (h : a.EndsBy n)
    (hb : ∀ y, b.intAttr? "address" = some y → n ≤ y) : a.Apart b :=
  fun x m y _ hx hm hy _ => .inl (Int.le_trans (h x m hx hm) (hb y hy))

/-- An operation that was given an aligned address from a start on, so that it ends by a limit. -/
structure PutAt (a b : Operation) (start limit size address : Int) : Prop where
  sized : a.intAttr? "size" = some size
  positive : 0 < size
  put : b = a.withAttr "address" (.int address)
  aligned : ∃ next, Integer.Fits (next + (bufferAlignment - 1)) ∧ alignUp? next = some address
  multiple : bufferAlignment ∣ address
  above : start ≤ address
  fits : Integer.Fits (address + size)
  below : address + size ≤ limit

namespace PutAt

variable {start limit size address : Int}

/-- Address and size of a buffer that was put. -/
theorem intAttr? (h : a.PutAt b start limit size address) :
    b.intAttr? "address" = some address ∧ b.intAttr? "size" = some size := by
  rw [h.put, intAttr?_withAttr, intAttr?_withAttr, if_pos rfl, if_neg (by decide), h.sized]
  exact ⟨rfl, rfl⟩

/-- A buffer that was put starts no earlier than allowed. -/
theorem starts (h : a.PutAt b start limit size address) (y : Int)
    (hy : b.intAttr? "address" = some y) : start ≤ y := by
  obtain rfl : address = y := Option.some.inj (h.intAttr?.1.symm.trans hy)
  exact h.above

/-- A buffer that was put ends where its size says. -/
theorem endsBy (h : a.PutAt b start limit size address) : b.EndsBy (address + size) := by
  intro x m hx hm
  obtain rfl : address = x := Option.some.inj (h.intAttr?.1.symm.trans hx)
  obtain rfl : size = m := Option.some.inj (h.intAttr?.2.symm.trans hm)
  exact Int.le_refl _

/-- A buffer can only be put where the start is within the limit. -/
theorem start_le_limit (h : a.PutAt b start limit size address) : start ≤ limit :=
  Int.le_trans h.above (Int.le_trans (Int.le_add_of_nonneg_right (Int.le_of_lt h.positive)) h.below)

/-- A buffer put from one address on is put from every earlier one on. -/
theorem mono {start' : Int} (h : a.PutAt b start limit size address) (hle : start' ≤ start) :
    a.PutAt b start' limit size address :=
  { h with above := Int.le_trans hle h.above }

end PutAt

end Operation

/-- A sum that was checked is in range. -/
theorem fits_of_checkedAdd {x y z : Int} (h : Integer.checkedAdd x y = some z) :
    Integer.Fits (x + y) := by
  rw [Integer.checkedAdd] at h
  split at h
  · assumption
  · cases h

/-- An aligned address is a multiple of the alignment, and not below the one that was aligned. -/
theorem alignUp?_spec {n address : Int} (hn : 0 ≤ n) (h : alignUp? n = some address) :
    n ≤ address ∧ bufferAlignment ∣ address ∧ Integer.Fits (n + (bufferAlignment - 1)) := by
  obtain ⟨m, hm, rfl⟩ := Option.map_eq_some_iff.1 h
  have hfits := fits_of_checkedAdd hm
  obtain rfl := checkedAdd_eq_some hm
  refine ⟨?_, Int.dvd_mul_left _ _, hfits⟩
  rw [bufferAlignment, Int.tdiv_eq_ediv_of_nonneg (by omega)]
  omega

/-! ### The buffers of one tile -/

namespace Program

variable {p' q' : Program} {start limit : Int} {bs : List OpId} {b c : OpId}

/-- Whether an operation comes without an address. -/
def NoAddress (p : Program) (id : OpId) : Prop :=
  (p.op id).intAttr? "address" = none

/-- A program in which the buffers of a tile have their addresses. Those that had none got them from
a start on and below a limit, and no other buffer overlaps them; where there is one of them, what
came with an address ends below the limit, too. -/
structure Packed (p q : Program) (start limit : Int) (bs : List OpId) : Prop where
  placed : ∀ b ∈ bs, p.NoAddress b →
    ∃ size address, (p.op b).PutAt (q.op b) start limit size address
  apart : ∀ b ∈ bs, p.NoAddress b → ∀ c ∈ bs, c ≠ b → (q.op b).Apart (q.op c)
  below : ∀ b ∈ bs, p.NoAddress b → ∀ c ∈ bs, (p.op c).EndsBy limit

/-- What becomes of the buffers of a tile depends on them only. -/
theorem Packed.congr (h : p.Packed q start limit bs) (hp : ∀ b ∈ bs, p'.op b = p.op b)
    (hq : ∀ b ∈ bs, q'.op b = q.op b) : p'.Packed q' start limit bs := by
  have hnone {b} (hb : b ∈ bs) (hn : p'.NoAddress b) : p.NoAddress b := by
    rwa [NoAddress, ← hp b hb]
  refine ⟨fun b hb hn => ?_, fun b hb hn c hc hne => ?_, fun b hb hn c hc => ?_⟩
  · rw [hp b hb, hq b hb]
    exact h.placed b hb (hnone hb hn)
  · rw [hq b hb, hq c hc]
    exact h.apart b hb (hnone hb hn) c hc hne
  · rw [hp c hc]
    exact h.below b hb (hnone hb hn) c hc

/-- One more buffer, which came with an address and ends before all those without one. -/
theorem Packed.cons_kept (h : p.Packed q start limit bs) (hb : ¬p.NoAddress b)
    (hends : (p.op b).EndsBy start) (hq : q.op b = p.op b) : p.Packed q start limit (b :: bs) := by
  have hmem {x} (hx : x ∈ b :: bs) (hn : p.NoAddress x) : x ∈ bs :=
    (List.mem_cons.1 hx).resolve_left fun heq => hb (heq ▸ hn)
  refine ⟨fun x hx hn => h.placed x (hmem hx hn) hn, fun x hx hn c hc hne => ?_,
    fun x hx hn c hc => ?_⟩ <;> rcases List.mem_cons.1 hc with rfl | hc
  · obtain ⟨size, address, hput⟩ := h.placed x (hmem hx hn) hn
    exact (hq ▸ hends.apart hput.starts).symm
  · exact h.apart x (hmem hx hn) hn c hc hne
  · obtain ⟨size, address, hput⟩ := h.placed x (hmem hx hn) hn
    exact hends.mono hput.start_le_limit
  · exact h.below x (hmem hx hn) hn c hc

/-- One more buffer, which was put behind those that came with an address and before the others. -/
theorem Packed.cons_put {size address : Int} (h : p.Packed q (address + size) limit bs)
    (hput : (p.op b).PutAt (q.op b) start limit size address)
    (hends : ∀ c ∈ bs, (p.op c).EndsBy start)
    (hq : ∀ c ∈ bs, ¬p.NoAddress c → q.op c = p.op c) (hb : p.NoAddress b) :
    p.Packed q start limit (b :: bs) := by
  have hle : start ≤ address + size :=
    Int.le_trans hput.above (Int.le_add_of_nonneg_right (Int.le_of_lt hput.positive))
  have hapart : ∀ c ∈ bs, (q.op b).Apart (q.op c) := by
    intro c hc
    by_cases hn : p.NoAddress c
    · obtain ⟨m, y, hc⟩ := h.placed c hc hn
      exact hput.endsBy.apart hc.starts
    · rw [hq c hc hn]
      exact ((hends c hc).apart hput.starts).symm
  have hbelow : ∀ c ∈ b :: bs, (p.op c).EndsBy limit := by
    intro c hc
    rcases List.mem_cons.1 hc with rfl | hc
    · exact fun x m hx => nomatch hb.symm.trans hx
    · exact (hends c hc).mono hput.start_le_limit
  refine ⟨fun x hx hn => ?_, fun x hx hn c hc hne => ?_, fun _ _ _ => hbelow⟩
  · rcases List.mem_cons.1 hx with rfl | hx
    · exact ⟨size, address, hput⟩
    · obtain ⟨m, y, hx⟩ := h.placed x hx hn
      exact ⟨m, y, hx.mono hle⟩
  · rcases List.mem_cons.1 hx with rfl | hxs <;> rcases List.mem_cons.1 hc with rfl | hcs
    · exact absurd rfl hne
    · exact hapart c hcs
    · exact (hapart x hxs).symm
    · exact h.apart x hxs hn c hcs hne

end Program

/-- The second pass packs the buffers of a tile behind an address that all others end by. -/
theorem placeBuffers_packed {limit next next' : Int} {bs : List OpId} (hbs : bs.Nodup)
    (hall : ∀ b ∈ bs, b < p.slots.size ∧ (p.op b).IsSized ∧ (p.op b).EndsBy next)
    (hnext : 0 ≤ next) (h : runOn (bs.foldlM (placeBuffer tile limit) next) p = (.ok next', q)) :
    p.SameBut (fun b => b ∈ bs ∧ p.NoAddress b) q ∧ p.Packed q next limit bs := by
  induction bs generalizing p next with
  | nil =>
      obtain ⟨-, rfl⟩ := foldlM_nil_ok.1 h
      exact ⟨.refl _, by simp, by simp, by simp⟩
  | cons b bs ih =>
      obtain ⟨hb, hbs⟩ := List.nodup_cons.1 hbs
      obtain ⟨⟨hlt, hsized, hends⟩, hall⟩ := List.forall_mem_cons.1 hall
      obtain ⟨n, r, hplace, hrest⟩ := foldlM_cons_ok.1 h
      rcases placeBuffer_cases hsized hplace with
        ⟨⟨address, haddress⟩, rfl, rfl⟩ |
        ⟨hnone, size, address, hsize, haddress, hstop, hlimit, rfl⟩
      · obtain ⟨hsame, hpacked⟩ := ih hbs hall hnext hrest
        have hkept : ¬r.NoAddress b := by simp [Program.NoAddress, haddress]
        exact ⟨hsame.mono fun x hx => ⟨List.mem_cons_of_mem _ hx.1, hx.2⟩,
          hpacked.cons_kept hkept hends (hsame.op b fun hx => hb hx.1)⟩
      · obtain rfl := checkedAdd_eq_some hstop
        obtain ⟨hle, hdvd, hfits⟩ := alignUp?_spec hnext haddress
        obtain ⟨m, hm, hpos, -⟩ := hsized
        obtain rfl : size = m := Option.some.inj (hsize.symm.trans hm)
        have hne {c} (hc : c ∈ bs) : c ≠ b := by
          rintro rfl
          exact hb hc
        have hold {c} (hc : c ∈ bs) :
            (p.modify b (·.withAttr "address" (.int address))).op c = p.op c :=
          Program.op_modify_of_ne (hne hc) _
        obtain ⟨hsame, hpacked⟩ := ih hbs (fun c hc => by
          obtain ⟨hltc, hsizedc, hendsc⟩ := hall c hc
          rw [Program.size_modify, hold hc]
          exact ⟨hltc, hsizedc, hendsc.mono (by omega)⟩) (by omega) hrest
        have hnoAddress {c} (hc : c ∈ bs) :
            (p.modify b (·.withAttr "address" (.int address))).NoAddress c ↔ p.NoAddress c := by
          rw [Program.NoAddress, hold hc, Program.NoAddress]
        have hput : (p.op b).PutAt (q.op b) next limit size address := by
          rw [hsame.op b fun hx => hb hx.1, Program.op_modify_self hlt]
          exact ⟨hsize, hpos, rfl, ⟨next, hfits, haddress⟩, hdvd, hle, fits_of_checkedAdd hstop,
            hlimit⟩
        refine ⟨(Program.SameBut.modify ⟨List.mem_cons_self, hnone⟩ _).trans
          (hsame.mono fun x hx => ⟨List.mem_cons_of_mem _ hx.1, (hnoAddress hx.1).1 hx.2⟩), ?_⟩
        refine (hpacked.congr (fun c hc => (hold hc).symm) fun _ _ => rfl).cons_put hput
          (fun c hc => (hall c hc).2.2) (fun c hc hn => ?_) hnone
        rw [hsame.op c fun hx => hn ((hnoAddress hc).1 hx.2), hold hc]

/-- The address that the layout of a tile starts from. -/
def DeviceModel.startOf (model : DeviceModel) (coreTiles : List Tile) (tile : Tile) : Int :=
  if tile ∈ coreTiles then model.stackSize else 0

/-- The buffers of a tile never start below zero. -/
theorem DeviceModel.startOf_nonneg (model : DeviceModel) (coreTiles : List Tile) (tile : Tile) :
    0 ≤ model.startOf coreTiles tile := by
  rw [startOf]
  split
  · exact (by decide : (0 : Int) ≤ 0x400)
  · exact Int.le_refl _

/-- The layout of one tile packs its buffers above the stack, if there is one, and into memory. -/
theorem layOutTile_packed {model : DeviceModel} {coreTiles : List Tile} {g : TileBuffers}
    (hg : g.buffers.Nodup) (hlt : ∀ b ∈ g.buffers, b < p.slots.size)
    (h : runOn (layOutTile model coreTiles g) p = (.ok (), q)) :
    p.SameBut (fun b => b ∈ g.buffers ∧ p.NoAddress b) q ∧
      p.Packed q (model.startOf coreTiles g.tile) (model.dataMemorySize g.tile.row) g.buffers ∧
      ∀ b ∈ g.buffers, (p.op b).IsSized := by
  rw [layOutTile] at h
  obtain ⟨next, r, hcheck, h⟩ := bind_ok.1 h
  obtain ⟨rfl, hle, hsized⟩ := checkBuffers_ok hcheck
  obtain ⟨_, s, hplace, h⟩ := bind_ok.1 h
  obtain ⟨-, rfl⟩ := pure_ok.1 h
  have hstart := model.startOf_nonneg coreTiles g.tile
  obtain ⟨hsame, hpacked⟩ := placeBuffers_packed hg
    (fun b hb => ⟨hlt b hb, hsized b hb⟩) (Int.le_trans hstart hle) hplace
  refine ⟨hsame, ⟨fun b hb hn => ?_, hpacked.apart, hpacked.below⟩, fun b hb => (hsized b hb).1⟩
  obtain ⟨size, address, hput⟩ := hpacked.placed b hb hn
  exact ⟨size, address, hput.mono hle⟩

/-! ### Buffers by tile -/

/-- Tiles are ordered by columns, then by rows. -/
theorem Tile.before_iff {s t : Tile} :
    s.before t = true ↔ s.column < t.column ∨ s.column = t.column ∧ s.row < t.row := by
  simp [Tile.before]

/-- The order of tiles is transitive. -/
theorem Tile.before_trans {s t u : Tile} (h : s.before t = true) (h' : t.before u = true) :
    s.before u = true := by
  rw [Tile.before_iff] at h h' ⊢
  omega

/-- Of two tiles in order, one is not the other. -/
theorem Tile.ne_of_before {s t : Tile} (h : s.before t = true) : s ≠ t := by
  rintro rfl
  rw [Tile.before_iff] at h
  omega

/-- One of two different tiles is before the other. -/
theorem Tile.before_of_not {s t : Tile} (h : ¬s.before t = true) (hne : s ≠ t) :
    t.before s = true := by
  rw [Tile.before_iff] at h ⊢
  have hcolumns : s.column = t.column → s.row ≠ t.row := fun hc hr => hne (by
    cases s
    cases t
    simp_all)
  omega

namespace TileBuffers

variable {groups : List TileBuffers} {g g' : TileBuffers}

/-- Groups in the order of their tiles. -/
def Ordered (groups : List TileBuffers) : Prop :=
  groups.Pairwise fun g g' => g.tile.before g'.tile = true

/-- Groups in the order of their tiles have different tiles. -/
theorem Ordered.eq_of_tile (h : Ordered groups) (hg : g ∈ groups) (hg' : g' ∈ groups)
    (ht : g.tile = g'.tile) : g = g' := by
  have hsymm : Std.Symm fun g g' : TileBuffers => g.tile ≠ g'.tile := ⟨fun _ _ h => h.symm⟩
  have hne := (h.imp fun hb => Tile.ne_of_before hb).forall hg hg'
  exact Classical.byContradiction fun hgg' => hne hgg' ht

/-- Grouping a buffer adds its tile at most. -/
theorem tiles_insertBuffer (tile : Tile) (buffer : OpId) (groups : List TileBuffers) (t : Tile) :
    t ∈ (insertBuffer tile buffer groups).map (·.tile) ↔ t = tile ∨ t ∈ groups.map (·.tile) := by
  induction groups with
  | nil => simp [insertBuffer]
  | cons g groups ih =>
      rw [insertBuffer]
      split
      · rename_i heq
        simp [heq]
      · split
        · simp
        · simp only [List.map_cons, List.mem_cons, ih]
          exact or_left_comm

/-- One more buffer leaves the groups in order. -/
theorem Ordered.insertBuffer (h : Ordered groups) (tile : Tile) (buffer : OpId) :
    Ordered (insertBuffer tile buffer groups) := by
  induction groups with
  | nil => exact List.pairwise_singleton _ _
  | cons g groups ih =>
      obtain ⟨hg, hrest⟩ := List.pairwise_cons.1 h
      rw [TileFlow.insertBuffer]
      split
      · exact List.pairwise_cons.2 ⟨hg, hrest⟩
      · rename_i hne
        split
        · rename_i hbefore
          refine List.pairwise_cons.2 ⟨fun g' hg' => ?_, h⟩
          rcases List.mem_cons.1 hg' with rfl | hg'
          · exact hbefore
          · exact Tile.before_trans hbefore (hg g' hg')
        · rename_i hbefore
          refine List.pairwise_cons.2 ⟨fun g' hg' => ?_, ih hrest⟩
          rcases (tiles_insertBuffer _ _ _ _).1 (List.mem_map_of_mem hg') with htile | hmem
          · rw [htile]
            exact Tile.before_of_not hbefore hne
          · obtain ⟨g₁, hg₁, heq⟩ := List.mem_map.1 hmem
            exact heq ▸ hg g₁ hg₁

/-- The buffer is put behind those of its tile, and the other groups stay. -/
theorem Ordered.mem_insertBuffer (h : Ordered groups)
    (hg : g ∈ TileFlow.insertBuffer tile buffer groups) :
    g ∈ groups ∧ g.tile ≠ tile ∨
      g.tile = tile ∧ (∃ g' ∈ groups, g'.tile = tile ∧ g.buffers = g'.buffers ++ [buffer]) ∨
      g = ⟨tile, [buffer]⟩ ∧ ∀ g' ∈ groups, g'.tile ≠ tile := by
  induction groups with
  | nil => exact .inr (.inr ⟨by simpa [TileFlow.insertBuffer] using hg, by simp⟩)
  | cons k groups ih =>
      obtain ⟨hk, hrest⟩ := List.pairwise_cons.1 h
      rw [TileFlow.insertBuffer] at hg
      split at hg
      · rename_i heq
        rcases List.mem_cons.1 hg with rfl | hg
        · exact .inr (.inl ⟨heq.symm, k, List.mem_cons_self, heq.symm, rfl⟩)
        · exact .inl ⟨List.mem_cons_of_mem _ hg,
            fun ht => Tile.ne_of_before (hk g hg) (heq.symm.trans ht.symm)⟩
      · rename_i hne
        split at hg
        · rename_i hbefore
          have hlater : ∀ g' ∈ k :: groups, g'.tile ≠ tile := fun g' hg' ht => by
            rcases List.mem_cons.1 hg' with rfl | hg'
            · exact hne ht.symm
            · exact Tile.ne_of_before (Tile.before_trans hbefore (hk g' hg')) ht.symm
          rcases List.mem_cons.1 hg with rfl | hg
          · exact .inr (.inr ⟨rfl, hlater⟩)
          · exact .inl ⟨hg, hlater g hg⟩
        · rcases List.mem_cons.1 hg with rfl | hg
          · exact .inl ⟨List.mem_cons_self, fun ht => hne ht.symm⟩
          · rcases ih hrest hg with ⟨hmem, ht⟩ | ⟨ht, g', hg', hrest⟩ | ⟨heq, hnone⟩
            · exact .inl ⟨List.mem_cons_of_mem _ hmem, ht⟩
            · exact .inr (.inl ⟨ht, g', List.mem_cons_of_mem _ hg', hrest⟩)
            · exact .inr (.inr ⟨heq, List.forall_mem_cons.2 ⟨fun ht => hne ht.symm, hnone⟩⟩)

/-- Buffers by tile: each group holds all buffers of its tile in program order. -/
structure Grouped (p : Program) (buffers : List OpId) (groups : List TileBuffers) : Prop where
  ordered : Ordered groups
  whole : ∀ g ∈ groups, g.buffers = buffers.filter fun b => p.owningTile? b = some g.tile
  covers : ∀ b ∈ buffers, ∃ g ∈ groups, p.owningTile? b = some g.tile

/-- Grouping one more buffer keeps the groups right. -/
theorem Grouped.insertBuffer {buffers : List OpId} (h : Grouped p buffers groups)
    (ht : p.owningTile? buffer = some tile) :
    Grouped p (buffers ++ [buffer]) (insertBuffer tile buffer groups) := by
  refine ⟨h.ordered.insertBuffer tile buffer, fun g hg => ?_, fun b hb => ?_⟩
  · rw [List.filter_append]
    rcases h.ordered.mem_insertBuffer hg with
      ⟨hmem, hne⟩ | ⟨htile, g', hg', htile', hbs⟩ | ⟨rfl, hnone⟩
    · simp [h.whole g hmem, ht, Ne.symm hne]
    · simp [hbs, h.whole g' hg', htile, htile', ht]
    · -- A buffer of the tile would have a group already.
      have hempty : buffers.filter (fun b => decide (p.owningTile? b = some tile)) = [] := by
        refine List.filter_eq_nil_iff.2 fun b hb hon => ?_
        obtain ⟨g', hg', htile⟩ := h.covers b hb
        rw [of_decide_eq_true hon] at htile
        exact hnone g' hg' (Option.some.inj htile).symm
      simp [hempty, ht]
  · have hgroup (t : Tile) (hmem : t = tile ∨ t ∈ groups.map (·.tile)) :
        ∃ g ∈ TileFlow.insertBuffer tile buffer groups, g.tile = t :=
      List.mem_map.1 ((tiles_insertBuffer tile buffer groups t).2 hmem)
    rcases List.mem_append.1 hb with hb | hb
    · obtain ⟨g, hg, hon⟩ := h.covers b hb
      obtain ⟨g', hg', htile⟩ := hgroup g.tile (.inr (List.mem_map_of_mem hg))
      exact ⟨g', hg', htile ▸ hon⟩
    · obtain ⟨g', hg', htile⟩ := hgroup tile (.inl rfl)
      rw [List.mem_singleton.1 hb]
      exact ⟨g', hg', htile ▸ ht⟩

end TileBuffers

/-- Each group holds all buffers of its tile. -/
theorem groupBuffers_grouped {buffers done : List OpId} {groups groups' : List TileBuffers}
    (hgroups : TileBuffers.Grouped p done groups)
    (h : runOn (buffers.foldlM groupBuffer groups) p = (.ok groups', q)) :
    p = q ∧ TileBuffers.Grouped p (done ++ buffers) groups' := by
  induction buffers generalizing groups done with
  | nil =>
      obtain ⟨rfl, rfl⟩ := foldlM_nil_ok.1 h
      exact ⟨rfl, (List.append_nil done).symm ▸ hgroups⟩
  | cons buffer buffers ih =>
      obtain ⟨groups₁, r, hgroup, h⟩ := foldlM_cons_ok.1 h
      rw [groupBuffer, get_bind_ok] at hgroup
      obtain ⟨tile, htile, hgroup⟩ := orFail_bind_ok.1 hgroup
      obtain ⟨rfl, rfl⟩ := pure_ok.1 hgroup
      simpa using ih (hgroups.insertBuffer htile) h

/-! ### A device -/

namespace Program

/-- The buffers of a device on a tile. -/
def buffersOn (p : Program) (device : OpId) (tile : Tile) : List OpId :=
  (p.findIn device "aie.buffer").filter fun b => p.owningTile? b = some tile

/-- The buffers of a device that come without an address. -/
def Unaddressed (p : Program) (device buffer : OpId) : Prop :=
  buffer ∈ p.findIn device "aie.buffer" ∧ p.NoAddress buffer

/-- The address that buffers of a device on a tile can start from. -/
def startOn (p : Program) (device : OpId) (tile : Tile) : Int :=
  (p.modelOf device).startOf ((p.findIn device "aie.core").filterMap p.owningTile?) tile

/-- The size of the memory of a tile of a device. -/
def memoryOn (p : Program) (device : OpId) (tile : Tile) : Int :=
  (p.modelOf device).dataMemorySize tile.row

/-- The buffers of one tile. -/
theorem mem_buffersOn {b : OpId} : b ∈ p.buffersOn device tile ↔
    b ∈ p.findIn device "aie.buffer" ∧ p.owningTile? b = some tile := by
  simp [buffersOn]

end Program

/-- The layout of the tiles of a device packs the buffers of each tile, and changes no others. -/
theorem layOutTiles_packed {groups : List TileBuffers} (hp : p.Tree)
    (hgroups : TileBuffers.Grouped p (p.findIn device "aie.buffer") groups)
    (h : runOn (groups.forM (layOutTile (p.modelOf device)
      ((p.findIn device "aie.core").filterMap p.owningTile?))) p = (.ok (), q)) :
    p.SameBut (p.Unaddressed device) q ∧ ∀ g ∈ groups,
      p.Packed q (p.startOn device g.tile) (p.memoryOn device g.tile) g.buffers ∧
      ∀ b ∈ g.buffers, (p.op b).IsSized := by
  have hmem {g} (hg : g ∈ groups) {b} (hb : b ∈ g.buffers) :
      b ∈ p.findIn device "aie.buffer" ∧ p.owningTile? b = some g.tile := by
    rw [hgroups.whole g hg] at hb
    simpa using hb
  have hapart {g g'} (hg : g ∈ groups) (hg' : g' ∈ groups) (hne : g ≠ g') {b} (hb : b ∈ g.buffers) :
      b ∉ g'.buffers := fun hb' =>
    hne (hgroups.ordered.eq_of_tile hg hg'
      (Option.some.inj ((hmem hg hb).2.symm.trans (hmem hg' hb').2)))
  have hnodup : groups.Nodup :=
    hgroups.ordered.imp fun hb heq => Tile.ne_of_before hb (congrArg _ heq)
  have hdone := forM_prefix (I := fun done r => (∀ g ∈ done, g ∈ groups) ∧
      p.SameBut (fun b => ∃ g ∈ done, b ∈ g.buffers ∧ p.NoAddress b) r ∧
      ∀ g ∈ done, p.Packed r (p.startOn device g.tile) (p.memoryOn device g.tile) g.buffers ∧
        ∀ b ∈ g.buffers, (p.op b).IsSized) hnodup h ⟨by simp, .refl p, by simp⟩
    fun g hg done hfresh r s hr hrun => by
      obtain ⟨hin, hsame, hpacked⟩ := hr
      -- The buffers of the tile are as they were, and the others stay as they are.
      have hother {g'} (hg' : g' ∈ done) : g ≠ g' := fun heq => hfresh (heq ▸ hg')
      have hold {b} (hb : b ∈ g.buffers) : r.op b = p.op b :=
        hsame.op b fun ⟨g', hg', hb', _⟩ => hapart hg (hin g' hg') (hother hg') hb hb'
      have hnoAddress {b} (hb : b ∈ g.buffers) : r.NoAddress b ↔ p.NoAddress b := by
        rw [Program.NoAddress, hold hb, Program.NoAddress]
      obtain ⟨hsame', hpacked', hsized⟩ := layOutTile_packed
        (hgroups.whole g hg ▸ (hp.nodup_findIn device _).filter _)
        (fun b hb => hsame.size ▸
          hp.sound.lt_size_of_walkIn (List.mem_filter.1 (hmem hg hb).1).1) hrun
      refine ⟨by simpa [or_imp, forall_and] using ⟨hin, hg⟩,
        (hsame.mono fun b ⟨g', hg', hb⟩ => ⟨g', List.mem_append_left _ hg', hb⟩).trans
          (hsame'.mono fun b hb => ⟨g, by simp, hb.1, (hnoAddress hb.1).1 hb.2⟩),
        fun g' hg' => ?_⟩
      rcases List.mem_append.1 hg' with hg' | hg'
      · obtain ⟨hpackedg', hsizedg'⟩ := hpacked g' hg'
        exact ⟨hpackedg'.congr (fun _ _ => rfl) fun b hb => hsame'.op b fun hb' =>
          hapart hg (hin g' hg') (hother hg') hb'.1 hb, hsizedg'⟩
      · rw [List.mem_singleton.1 hg']
        exact ⟨hpacked'.congr (fun b hb => (hold hb).symm) fun _ _ => rfl,
          fun b hb => hold hb ▸ hsized b hb⟩
  exact ⟨hdone.2.1.mono fun b ⟨g, hg, hb, hn⟩ => ⟨(hmem hg hb).1, hn⟩, hdone.2.2⟩

/-- The layout of a device packs the buffers of each tile, and changes nothing but those that came
without an address. -/
theorem assignBufferAddresses_packed (hp : p.Tree)
    (h : runOn (assignBufferAddresses device) p = (.ok (), q)) :
    p.SameBut (p.Unaddressed device) q ∧
      (∀ b ∈ p.findIn device "aie.buffer",
        (∃ tile, p.owningTile? b = some tile) ∧ (p.op b).IsSized) ∧
      ∀ tile, p.Packed q (p.startOn device tile) (p.memoryOn device tile)
        (p.buffersOn device tile) := by
  rw [assignBufferAddresses, get_bind_ok] at h
  obtain ⟨_, r, hlocks, h⟩ := bind_ok.1 h
  obtain rfl := checkLocks_ok hlocks
  obtain ⟨groups, r, hgroups, h⟩ := bind_ok.1 h
  have hnone : TileBuffers.Grouped p [] [] := ⟨List.Pairwise.nil, by simp, by simp⟩
  obtain ⟨rfl, hgrouped⟩ := groupBuffers_grouped hnone hgroups
  rw [List.nil_append] at hgrouped
  obtain ⟨hsame, hall⟩ := layOutTiles_packed hp hgrouped h
  refine ⟨hsame, fun b hb => ?_, fun tile => ?_⟩
  · obtain ⟨g, hg, hon⟩ := hgrouped.covers b hb
    refine ⟨⟨g.tile, hon⟩, (hall g hg).2 b ?_⟩
    rw [hgrouped.whole g hg]
    simpa using ⟨hb, hon⟩
  · by_cases hg : ∃ g ∈ groups, g.tile = tile
    · obtain ⟨g, hg, rfl⟩ := hg
      rw [Program.buffersOn, ← hgrouped.whole g hg]
      exact (hall g hg).1
    · -- A tile without a group has no buffers.
      have hempty : p.buffersOn device tile = [] := by
        refine List.filter_eq_nil_iff.2 fun b hb hon => hg ?_
        obtain ⟨g, hg, htile⟩ := hgrouped.covers b hb
        rw [of_decide_eq_true hon] at htile
        exact ⟨g, hg, (Option.some.inj htile).symm⟩
      rw [hempty]
      exact ⟨by simp, by simp, by simp⟩

namespace Program

/-- What holds of a buffer of a device that was given an address: it is in the memory of its tile,
above the stack of a core there, and no other buffer of the device on the tile overlaps it. -/
structure Assigned (p q : Program) (device buffer : OpId) (tile : Tile) (size address : Int) :
    Prop where
  placed : p.owningTile? buffer = some tile
  sized : (p.op buffer).intAttr? "size" = some size
  positive : 0 < size
  put : q.op buffer = (p.op buffer).withAttr "address" (.int address)
  multiple : 16 ∣ address
  nonneg : 0 ≤ address
  stack : ∀ core ∈ p.findIn device "aie.core", p.owningTile? core = some tile →
    (p.modelOf device).stackSize ≤ address
  memory : address + size ≤ (p.modelOf device).dataMemorySize tile.row
  apart : ∀ other ∈ p.findIn device "aie.buffer", other ≠ buffer →
    p.owningTile? other = some tile → (q.op buffer).Apart (q.op other)
  aligned : ∃ next, Integer.Fits (next + 15) ∧ alignUp? next = some address

end Program

/-- A device whose buffers are laid out differs in nothing but the addresses of the buffers that
came without one. Each of these is aligned, lies in memory above the stack, and overlaps no other
buffer on its tile, be it one that came with an address or not. In the end every buffer has a size
and an address whose sum is in range, as were all sums on the way. -/
theorem assignBufferAddresses_assigned (hp : p.Tree)
    (h : runOn (assignBufferAddresses device) p = (.ok (), q)) :
    p.SameBut (p.Unaddressed device) q ∧
      (∀ buffer, p.Unaddressed device buffer →
        ∃ tile size address, p.Assigned q device buffer tile size address) ∧
      ∀ buffer ∈ p.findIn device "aie.buffer", ∃ size address,
        (q.op buffer).intAttr? "size" = some size ∧
        (q.op buffer).intAttr? "address" = some address ∧ 0 < size ∧ 0 ≤ address ∧
        Integer.Fits (address + size) := by
  obtain ⟨hsame, hplaced, hpacked⟩ := assignBufferAddresses_packed hp h
  refine ⟨hsame, fun buffer hbuffer => ?_, fun buffer hbuffer => ?_⟩
  · obtain ⟨⟨tile, htile⟩, -⟩ := hplaced buffer hbuffer.1
    have hon : buffer ∈ p.buffersOn device tile := Program.mem_buffersOn.2 ⟨hbuffer.1, htile⟩
    obtain ⟨size, address, hput⟩ := (hpacked tile).placed buffer hon hbuffer.2
    have hstart : 0 ≤ p.startOn device tile := DeviceModel.startOf_nonneg _ _ _
    refine ⟨tile, size, address, htile, hput.sized, hput.positive, hput.put, hput.multiple,
      Int.le_trans hstart hput.above, fun core hcore hon => ?_, hput.below,
      fun other hother hne hon' => ?_, hput.aligned⟩
    · have htile : tile ∈ (p.findIn device "aie.core").filterMap p.owningTile? :=
        List.mem_filterMap.2 ⟨core, hcore, hon⟩
      simpa [Program.startOn, DeviceModel.startOf, htile] using hput.above
    · exact (hpacked tile).apart buffer hon hbuffer.2 other
        (Program.mem_buffersOn.2 ⟨hother, hon'⟩) hne
  · obtain ⟨size, address, hsize, hpos, haddress, hnonneg, hfits⟩ :=
      ((assignBufferAddresses_ok hp.sound h).2 buffer hbuffer).1
    obtain ⟨stop, hstop⟩ := Option.isSome_iff_exists.1 (hfits size hsize)
    exact ⟨size, address, hsize, haddress, hpos, hnonneg, fits_of_checkedAdd hstop⟩

/-- Two tiles with buffers, one of them with a core and with a buffer that has its place. -/
def mixedBuffersSource : String :=
  "aie.device(ipu) \x7b %t = aie.tile(0, 2) %u = aie.tile(0, 3) aie.core(%t) \x7b \x7d\n" ++
  "%a = aie.buffer(%t) \x7bsize = 40\x7d %b = aie.buffer(%u) \x7bsize = 8\x7d\n" ++
  "%c = aie.buffer(%t) \x7baddress = 2000, size = 10\x7d\n" ++
  "%d = aie.buffer(%t) \x7bsize = 8\x7d \x7d"

/-- The buffers without a place come behind the one that has its place, each on its tile. -/
theorem assignBufferAddresses_assigned_mixed :
    ∃ p q, Source.parse mixedBuffersSource = .ok p ∧ p.Tree ∧
      runOn (assignBufferAddresses 0) p = (.ok (), q) ∧
      p.Unaddressed 0 4 ∧ (q.op 4).intAttr? "address" = some 2016 ∧
      p.Unaddressed 0 5 ∧ (q.op 5).intAttr? "address" = some 0 ∧
      p.Unaddressed 0 7 ∧ (q.op 7).intAttr? "address" = some 2064 ∧
      ∃ tile size address, p.Assigned q 0 7 tile size address := by
  have hsource : ∃ p, Source.parse mixedBuffersSource = .ok p ∧
      (runOn (assignBufferAddresses 0) p).1.toOption = some () ∧
      p.findIn 0 "aie.buffer" = [4, 5, 6, 7] ∧
      (p.op 4).intAttr? "address" = none ∧ (p.op 5).intAttr? "address" = none ∧
      (p.op 7).intAttr? "address" = none ∧
      ((runOn (assignBufferAddresses 0) p).2.op 4).intAttr? "address" = some 2016 ∧
      ((runOn (assignBufferAddresses 0) p).2.op 5).intAttr? "address" = some 0 ∧
      ((runOn (assignBufferAddresses 0) p).2.op 7).intAttr? "address" = some 2064 :=
    exists_ok_of_any (by decide +kernel)
  obtain ⟨p, hparse, hok, hbuffers, h4, h5, h7, ha4, ha5, ha7⟩ := hsource
  obtain ⟨hsound, -, haside⟩ := Source.parse_ok hparse
  have htree := hsound.toWellFormed.tree haside
  have hrun := eq_ok_of_toOption hok
  have hmem {b : OpId} (hb : b ∈ [4, 5, 6, 7]) : b ∈ p.findIn 0 "aie.buffer" := hbuffers ▸ hb
  have hassigned := (assignBufferAddresses_assigned htree hrun).2.1 7 ⟨hmem (by simp), h7⟩
  exact ⟨p, _, hparse, htree, hrun, ⟨hmem (by simp), h4⟩, ha4, ⟨hmem (by simp), h5⟩, ha5,
    ⟨hmem (by simp), h7⟩, ha7, hassigned⟩

/-! ### Buffers that came with an address -/

/-- What is checked of a buffer that came with an address: that neither the address is negative nor
the size other than positive, and that its end is in range. Whether it ends within the memory of its
tile is only seen where the tile has a buffer without an address, which has to fit behind it. -/
theorem assignBufferAddresses_handPlaced (hp : p.Tree)
    (h : runOn (assignBufferAddresses device) p = (.ok (), q))
    (hbuffer : buffer ∈ p.findIn device "aie.buffer") {address : Int}
    (haddress : (p.op buffer).intAttr? "address" = some address) :
    q.op buffer = p.op buffer ∧ ∃ tile size, p.owningTile? buffer = some tile ∧
      (p.op buffer).intAttr? "size" = some size ∧ 0 < size ∧ 0 ≤ address ∧
      Integer.Fits (address + size) ∧
      ((∃ other, p.Unaddressed device other ∧ p.owningTile? other = some tile) →
        address + size ≤ (p.modelOf device).dataMemorySize tile.row) := by
  obtain ⟨hsame, hplaced, hpacked⟩ := assignBufferAddresses_packed hp h
  obtain ⟨⟨tile, htile⟩, size, hsize, hpos, hfits⟩ := hplaced buffer hbuffer
  obtain ⟨hnonneg, hsum⟩ := hfits address haddress
  obtain ⟨stop, hstop⟩ := Option.isSome_iff_exists.1 (hsum size hsize)
  have hkept : ¬p.Unaddressed device buffer := fun hn => by
    have hnone : (p.op buffer).intAttr? "address" = none := hn.2
    rw [haddress] at hnone
    cases hnone
  refine ⟨hsame.op buffer hkept, tile, size, htile, hsize, hpos, hnonneg,
    fits_of_checkedAdd hstop, ?_⟩
  rintro ⟨other, ⟨hother, hnone⟩, hon⟩
  exact (hpacked tile).below other (Program.mem_buffersOn.2 ⟨hother, hon⟩) hnone buffer
    (Program.mem_buffersOn.2 ⟨hbuffer, htile⟩) address size haddress hsize

/-- The buffer with a place on a tile with others ends within memory. -/
theorem assignBufferAddresses_handPlaced_mixed :
    ∃ p q, Source.parse mixedBuffersSource = .ok p ∧ p.Tree ∧
      runOn (assignBufferAddresses 0) p = (.ok (), q) ∧ 6 ∈ p.findIn 0 "aie.buffer" ∧
      (p.op 6).intAttr? "address" = some 2000 ∧ q.op 6 = p.op 6 ∧
      ∃ tile size, p.owningTile? 6 = some tile ∧ (p.op 6).intAttr? "size" = some size ∧
        2000 + size ≤ (p.modelOf 0).dataMemorySize tile.row := by
  have hsource : ∃ p, Source.parse mixedBuffersSource = .ok p ∧
      (runOn (assignBufferAddresses 0) p).1.toOption = some () ∧
      p.findIn 0 "aie.buffer" = [4, 5, 6, 7] ∧ (p.op 6).intAttr? "address" = some 2000 ∧
      (p.op 7).intAttr? "address" = none ∧ p.owningTile? 6 = some ⟨0, 2⟩ ∧
      p.owningTile? 7 = some ⟨0, 2⟩ := exists_ok_of_any (by decide +kernel)
  obtain ⟨p, hparse, hok, hbuffers, haddress, hnone, h6, h7⟩ := hsource
  obtain ⟨hsound, -, haside⟩ := Source.parse_ok hparse
  have htree := hsound.toWellFormed.tree haside
  have hrun := eq_ok_of_toOption hok
  have hmem {b : OpId} (hb : b ∈ [4, 5, 6, 7]) : b ∈ p.findIn 0 "aie.buffer" := hbuffers ▸ hb
  obtain ⟨hkept, tile, size, htile, hsize, -, -, -, hmemory⟩ :=
    assignBufferAddresses_handPlaced htree hrun (hmem (by simp)) haddress
  obtain rfl : ⟨0, 2⟩ = tile := Option.some.inj (h6.symm.trans htile)
  exact ⟨p, _, hparse, htree, hrun, hmem (by simp), haddress, hkept, _, size, h6, hsize,
    hmemory ⟨7, ⟨hmem (by simp), hnone⟩, h7⟩⟩

/-- Two buffers at the same place, behind the end of the memory of their tile. -/
def strayBuffersSource : String :=
  "aie.device(ipu) \x7b %t = aie.tile(0, 2)\n" ++
  "%a = aie.buffer(%t) \x7baddress = 65536, size = 16\x7d\n" ++
  "%b = aie.buffer(%t) \x7baddress = 65536, size = 16\x7d \x7d"

/-- The layout accepts buffers that lie behind the end of memory, and on top of each other, as long
as no other buffer on their tile asks for an address. -/
theorem assignBufferAddresses_handPlaced_stray :
    ∃ p q, Source.parse strayBuffersSource = .ok p ∧ p.Tree ∧ 0 ∈ p.devices ∧
      runOn (assignBufferAddresses 0) p = (.ok (), q) ∧ p.findIn 0 "aie.buffer" = [2, 3] ∧
      p.owningTile? 2 = some ⟨0, 2⟩ ∧ p.owningTile? 3 = some ⟨0, 2⟩ ∧
      ¬(p.op 2).EndsBy ((p.modelOf 0).dataMemorySize 2) ∧ ¬(p.op 2).Apart (p.op 3) := by
  have hsource : ∃ p, Source.parse strayBuffersSource = .ok p ∧
      (runOn (assignBufferAddresses 0) p).1.toOption = some () ∧ 0 ∈ p.devices ∧
      p.findIn 0 "aie.buffer" = [2, 3] ∧ p.owningTile? 2 = some ⟨0, 2⟩ ∧
      p.owningTile? 3 = some ⟨0, 2⟩ ∧ (p.op 2).intAttr? "address" = some 65536 ∧
      (p.op 2).intAttr? "size" = some 16 ∧ (p.op 3).intAttr? "address" = some 65536 ∧
      (p.op 3).intAttr? "size" = some 16 ∧ (p.modelOf 0).dataMemorySize 2 = 65536 :=
    exists_ok_of_any (by decide +kernel)
  obtain ⟨p, hparse, hok, hdevice, hbuffers, h2, h3, ha2, hs2, ha3, hs3, hlimit⟩ := hsource
  obtain ⟨hsound, -, haside⟩ := Source.parse_ok hparse
  refine ⟨p, _, hparse, hsound.toWellFormed.tree haside, hdevice, eq_ok_of_toOption hok, hbuffers,
    h2, h3, fun hends => ?_, fun hapart => ?_⟩
  · have hend := hends 65536 16 ha2 hs2
    rw [hlimit] at hend
    omega
  · have hends := hapart 65536 16 65536 16 ha2 hs2 ha3 hs3
    omega

end TileFlow
