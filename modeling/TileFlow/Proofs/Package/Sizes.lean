import Mathlib.Logic.Basic
import TileFlow.Package.Documents
import TileFlow.Proofs.Routing.Path
import TileFlow.Proofs.Routing.Wires

/-!
# The sizes that a package states

A package states how many host buffers its kernel takes and how many columns of the array it
reserves. Both are the least positive numbers above all indices that the program names.

The columns are those that the program names before it is routed, while the routers create tiles on
the way between the endpoints of streams. As long as columns differ by no more than the range of
integers, a path stays between the columns of its two ends, so it crosses no column beyond the last
one that is named.

## Main definitions

* `Program.HasColumn`, `Program.Spans`: the columns of the tiles of a program, and those between
  them.
* `Program.TilesIn`: the programs with all their tiles in some columns.
* `EditRule.tilesIn`: edits that create tiles in some columns only.
## Main results

* `Program.bufferArgs_le_iff`, `Program.columnWidth_le_iff`: what is enough for a program.
* `host_columnWidth`: routing for the host needs no further column.
-/

/-! ## What is enough for a program -/

namespace TileFlow

/-- A count bounds indices exactly if each of them is below it. -/
theorem countUpTo_le_iff {indices : List Int} {n : Nat} (hn : 0 < n) :
    countUpTo indices ≤ n ↔ ∀ i ∈ indices, i < n := by
  rw [countUpTo]
  generalize hmax : (indices.map fun i => i.toNat + 1).max? = largest
  cases largest with
  | none =>
      rw [List.max?_eq_none_iff, List.map_eq_nil_iff] at hmax
      simpa [hmax] using Nat.succ_le_of_lt hn
  | some m =>
      rw [Option.getD_some, List.max?_le_iff hmax, List.forall_mem_map]
      exact forall₂_congr fun i _ => by omega

/-- A count is never zero. -/
theorem countUpTo_pos (indices : List Int) : 0 < countUpTo indices := by
  rw [countUpTo]
  generalize hmax : (indices.map fun i => i.toNat + 1).max? = largest
  cases largest with
  | none => exact Nat.one_pos
  | some m =>
      obtain ⟨i, -, rfl⟩ := List.mem_map.1 (List.max?_mem hmax)
      exact Nat.succ_pos _

/-- Numbers that operations give are below a bound exactly if each of the numbers is. -/
theorem countUpTo_filterMap_le_iff {ids : List OpId} {f : OpId → Option Int} {n : Nat}
    (hn : 0 < n) :
    countUpTo (ids.filterMap f) ≤ n ↔ ∀ id ∈ ids, ∀ i, f id = some i → i < n := by
  rw [countUpTo_le_iff hn]
  constructor
  · intro h id hid i hi
    exact h i (List.mem_filterMap.2 ⟨id, hid, hi⟩)
  · intro h i hmem
    obtain ⟨id, hid, hi⟩ := List.mem_filterMap.1 hmem
    exact h id hid i hi

namespace Program

variable {p : Program}

/-- There is always an argument. -/
theorem bufferArgs_pos (p : Program) : 0 < p.bufferArgs :=
  countUpTo_pos _

/-- There is always a column. -/
theorem columnWidth_pos (p : Program) : 0 < p.columnWidth :=
  countUpTo_pos _

/-- There are enough host buffers exactly if every transfer that says which one it uses finds it. -/
theorem bufferArgs_le_iff {n : Nat} (hn : 0 < n) : p.bufferArgs ≤ n ↔
    ∀ id ∈ p.findAll "aiex.ipu.dma_memcpy_nd", ∀ i, (p.op id).intAttr? "arg_idx" = some i → i < n :=
  countUpTo_filterMap_le_iff hn

/-- There are enough columns exactly if every tile is in one of them. -/
theorem columnWidth_le_iff {n : Nat} (hn : 0 < n) : p.columnWidth ≤ n ↔
    ∀ id ∈ p.findAll "aie.tile", ∀ i, (p.op id).operandInt? 0 = some i → i < n :=
  countUpTo_filterMap_le_iff hn

end Program

end TileFlow

/-! ## The partition covers the routed design -/

namespace TileFlow

open TileFlow.Action

/-! ### Columns of tiles -/

/-- Whether an operation, if it is a tile, is in one of some columns. -/
def Operation.ColumnIn (op : Operation) (S : Int → Prop) : Prop :=
  op.is "aie.tile" = true → ∀ column, op.operandInt? 0 = some column → S column

/-- Operations with the same header are in the same column. -/
theorem Operation.ColumnIn.of_sameHeader {a b : Operation} {S : Int → Prop} (hab : a.SameHeader b)
    (h : a.ColumnIn S) : b.ColumnIn S := by
  rw [ColumnIn, hab.is, operandInt?, hab.operands]
  exact h

/-- The column of a tile is the first coordinate of its place. -/
theorem Operation.ColumnIn.tile_column {op : Operation} {S : Int → Prop} {t : Tile}
    (h : op.ColumnIn S) (hname : op.is "aie.tile" = true)
    (ht : op.tile? = some t) : S t.column := by
  rw [tile?] at ht
  split at ht
  · rename_i hcolumn _
    cases ht
    exact h hname _ hcolumn
  · cases ht

/-- A tile is in the column that its place says. -/
theorem Operation.columnIn_of_tile {op : Operation} {S : Int → Prop} {t : Tile}
    (ht : op.tile? = some t) (h : S t.column) : op.ColumnIn S := by
  rw [tile?] at ht
  split at ht
  · rename_i hcolumn _
    cases ht
    intro _ column hcolumn'
    cases hcolumn.symm.trans hcolumn'
    exact h
  · cases ht

/-- Whether some columns can be crossed from one to another: the columns between two of them are
among them, and no two of them differ by more than the range of integers. -/
structure IsStretch (S : Int → Prop) : Prop where
  between : ∀ a b c, S a → S b → a ≤ c → c ≤ b → S c
  reach : ∀ a b, S a → S b → Integer.Fits (b - a)

/-- The columns of a path lie between the columns of its ends. -/
theorem IsStretch.of_mem_pathTo {S : Int → Prop} (hS : IsStretch S) {a b t : Tile} (ha : S a.column)
    (hb : S b.column) (h : t ∈ a.pathTo b) : S t.column := by
  rw [Tile.pathTo, stepsTo_of_fits (hS.reach _ _ ha hb), List.mem_cons, List.mem_append,
    List.mem_map, List.mem_map] at h
  rcases h with rfl | ⟨column, hcolumn, rfl⟩ | ⟨row, -, rfl⟩
  · exact ha
  · have hbetween := mem_straightTo hcolumn
    change S column
    rcases Int.le_total a.column b.column with hle | hle
    · exact hS.between _ _ _ ha hb (by omega) (by omega)
    · exact hS.between _ _ _ hb ha (by omega) (by omega)
  · exact hb

variable {p q : Program} {device : OpId} {S : Int → Prop}

namespace Program

/-- Whether all tiles of a program are in some columns. -/
def TilesIn (p : Program) (S : Int → Prop) : Prop :=
  ∀ id ∈ p.walk, (p.op id).ColumnIn S

/-- Whether a program has a tile in a column. -/
def HasColumn (p : Program) (column : Int) : Prop :=
  ∃ id ∈ p.findAll "aie.tile", (p.op id).operandInt? 0 = some column

/-- Whether a column is one of those of the tiles of a program, or between two of them. -/
def Spans (p : Program) (column : Int) : Prop :=
  ∃ a b, p.HasColumn a ∧ p.HasColumn b ∧ a ≤ column ∧ column ≤ b

/-- Whether no two tiles of a program are further apart than the range of columns. -/
def ColumnsInReach (p : Program) : Prop :=
  ∀ a b, p.HasColumn a → p.HasColumn b → Integer.Fits (b - a)

/-- Tiles lie in a set of columns exactly if every column in use does. -/
theorem tilesIn_iff : p.TilesIn S ↔ ∀ column, p.HasColumn column → S column := by
  constructor
  · rintro h column ⟨id, hid, hcolumn⟩
    obtain ⟨hid, hname⟩ := List.mem_filter.1 hid
    exact h id hid hname column hcolumn
  · exact fun h id hid hname column hcolumn => h column
      ⟨id, List.mem_filter.2 ⟨hid, hname⟩, hcolumn⟩

/-- The tiles of a program are in the columns that it spans. -/
theorem tilesIn_spans (p : Program) : p.TilesIn p.Spans :=
  tilesIn_iff.2 fun column h => ⟨column, column, h, h, Int.le_refl _, Int.le_refl _⟩

/-- What a program spans can be crossed if no two of its tiles are too far apart. -/
theorem ColumnsInReach.isStretch (h : p.ColumnsInReach) : IsStretch p.Spans where
  between := fun _ _ _ ⟨a, _, ha, _, hle, _⟩ ⟨_, b, _, hb, _, hge⟩ hac hcb =>
    ⟨a, b, ha, hb, Int.le_trans hle hac, Int.le_trans hcb hge⟩
  reach := by
    rintro x y ⟨a, b, ha, hb, hax, hxb⟩ ⟨c, d, hc, hd, hcy, hyd⟩
    have had := h a d ha hd
    have hbc := h b c hb hc
    simp only [Integer.Fits] at *
    omega

/-- The tiles of a program are in as many columns as it has. -/
theorem tilesIn_columnWidth_iff {width : Nat} (hwidth : 0 < width) :
    p.columnWidth ≤ width ↔ p.TilesIn (· < width) := by
  rw [columnWidth_le_iff hwidth, tilesIn_iff]
  exact ⟨fun h column ⟨id, hid, hcolumn⟩ => h id hid column hcolumn,
    fun h id hid column hcolumn => h column ⟨id, hid, hcolumn⟩⟩

/-- What a program spans is in as many columns as it has. -/
theorem Spans.lt_columnWidth {column : Int} (h : p.Spans column) : column < p.columnWidth := by
  obtain ⟨a, b, -, hb, -, hle⟩ := h
  exact Int.lt_of_le_of_lt hle (tilesIn_iff.1 ((tilesIn_columnWidth_iff p.columnWidth_pos).1
    (Nat.le_refl _)) b hb)

/-- The tile a value denotes lies in the columns. -/
theorem TilesIn.tileOf? {value : String} {t : Tile} (h : p.TilesIn S)
    (ht : p.tileOf? value = some t) : S t.column := by
  obtain ⟨id, hdef, hname, htile⟩ := tileOf?_eq_some.1 ht
  exact (h id (mem_walk_of_definingOp? hdef).1).tile_column hname htile

/-- The tile of an endpoint lies in the columns. -/
theorem TilesIn.endpoint? {op : Operation} {first : Nat} {e : Endpoint}
    (h : p.TilesIn S) (he : p.endpoint? op first = some e) : S e.tile.column := by
  rw [Program.endpoint?] at he
  split at he
  · rename_i htile _ _
    cases he
    obtain ⟨value, -, ht⟩ := Option.bind_eq_some_iff.1 htile
    exact h.tileOf? ht
  · cases he

/-- The path between two endpoints crosses no column but those of the tiles and between them. -/
theorem TilesIn.path {a b : Operation} {i j : Nat} {source destination : Endpoint}
    (hS : IsStretch S)
    (h : p.TilesIn S) (hsource : p.endpoint? a i = some source)
    (hdestination : p.endpoint? b j = some destination) :
    ∀ tile ∈ source.tile.pathTo destination.tile, S tile.column := fun _ htile =>
  hS.of_mem_pathTo (h.endpoint? hsource) (h.endpoint? hdestination) htile

end Program

/-! ### Routing -/

/-- Anything is created but tiles in other columns. Nothing is changed in place, and anything may be
erased. -/
def EditRule.tilesIn (S : Int → Prop) : EditRule where
  creates _ _ op := op.ColumnIn S
  changes _ _ _ := False
  erases _ _ := True

/-- Creating tiles in the columns only keeps every operation there. -/
theorem EditRule.tilesIn_keeps (S : Int → Prop) :
    (EditRule.tilesIn S).Keeps fun op => op.ColumnIn S where
  header _ _ hab h := h.of_sameHeader hab
  creates _ _ _ hop := hop
  changes _ _ _ hop := hop.elim

/-- Creating tiles in the columns only keeps the program there. -/
theorem Program.Edits.tilesIn (hp : p.Sound) (h : p.Edits (.tilesIn S) q)
    (htiles : p.TilesIn S) : q.TilesIn S :=
  h.forall_walk (EditRule.tilesIn_keeps S) hp htiles

/-- Edits that create no tile create none in another column. -/
theorem Program.Edits.tilesIn_of_names {rule : EditRule} {names : List String}
    (h : p.Edits rule q) (hnames : rule.Names names) (htile : "aie.tile" ∉ names)
    (changes : ∀ p id op, ¬ rule.changes p id op) : p.Edits (.tilesIn S) q :=
  h.mono (fun _ _ _ hop hname => absurd (beq_iff_eq.1 hname ▸ hnames.creates _ _ _ hop) htile)
    (fun p id op hop => changes p id op hop) fun _ _ _ => trivial

/-- What is no tile is in every column. -/
theorem columnIn_of_name {op : Operation} (h : op.name ≠ "aie.tile") : op.ColumnIn S :=
  fun htile => absurd (beq_iff_eq.1 htile) h

/-- A switchbox on a tile in the columns is created in the columns. -/
theorem switchboxFor_tilesIn {tile : Tile} {box : OpId} (htile : S tile.column)
    (h : runOn (switchboxFor device tile) p = (.ok box, q)) : p.Edits (.tilesIn S) q :=
  switchboxFor_edits (fun _ _ ht => Operation.columnIn_of_tile ht htile)
    (fun _ _ _ _ hname => columnIn_of_name (by simp [beq_iff_eq.1 hname])) h

/-- A circuit laid along a path in the columns stays there. -/
theorem layCircuit_tilesIn {l l' : ChannelLedger} {input output : Channel} {path : List Tile}
    (hpath : ∀ tile ∈ path, S tile.column)
    (h : runOn (layCircuit device output l input path) p = (.ok l', q)) :
    p.Edits (.tilesIn S) q := by
  have hconnect : ∀ {box id : OpId} {input output : Channel} {p q : Program},
      runOn (Action.append box (connection "aie.connect" input output)) p = (.ok id, q) →
        p.Edits (.tilesIn S) q := fun h =>
    append_edits h (columnIn_of_name (by simp [connection])) (Program.fresh_of_none rfl)
  induction path generalizing p l input with
  | nil =>
      rw [layCircuit] at h
      obtain ⟨-, rfl⟩ := pure_ok.1 h
      exact .refl
  | cons tile path ih =>
      obtain ⟨htile, hrest⟩ := List.forall_mem_cons.1 hpath
      cases path with
      | nil =>
          rw [layCircuit] at h
          obtain ⟨box, r, hbox, h⟩ := bind_ok.1 h
          obtain ⟨_, s, happend, h⟩ := bind_ok.1 h
          obtain ⟨-, rfl⟩ := pure_ok.1 h
          exact (switchboxFor_tilesIn htile hbox).trans (hconnect happend)
      | cons next rest =>
          rw [layCircuit] at h
          dsimp only at h
          obtain ⟨⟨channel, l₁⟩, -, h⟩ := orFail_bind_ok.1 h
          dsimp only at h
          obtain ⟨box, r, hbox, h⟩ := bind_ok.1 h
          obtain ⟨_, s, happend, h⟩ := bind_ok.1 h
          exact ((switchboxFor_tilesIn htile hbox).trans (hconnect happend)).trans (ih hrest h)

/-- Packet rules laid along a path in the columns stay there. -/
theorem layPackets_tilesIn {id : Int} {input output : Channel} {path : List Tile}
    (hpath : ∀ tile ∈ path, S tile.column)
    (h : runOn (layPackets device id output input path) p = (.ok (), q)) :
    p.Edits (.tilesIn S) q := by
  have hadd : ∀ {box : OpId} {input output : Channel} {p q : Program},
      runOn (addOnce box (packetRule id input output)) p = (.ok (), q) →
        p.Edits (.tilesIn S) q :=
    addOnce_edits (columnIn_of_name (by simp [packetRule, connection, Operation.withAttr])) rfl
  induction path generalizing p input with
  | nil =>
      rw [layPackets] at h
      obtain ⟨-, rfl⟩ := pure_ok.1 h
      exact .refl
  | cons tile path ih =>
      obtain ⟨htile, hrest⟩ := List.forall_mem_cons.1 hpath
      cases path with
      | nil =>
          rw [layPackets] at h
          obtain ⟨box, r, hbox, h⟩ := bind_ok.1 h
          exact (switchboxFor_tilesIn htile hbox).trans (hadd h)
      | cons next rest =>
          rw [layPackets] at h
          obtain ⟨box, r, hbox, h⟩ := bind_ok.1 h
          obtain ⟨_, s, hrule, h⟩ := bind_ok.1 h
          exact ((switchboxFor_tilesIn htile hbox).trans (hadd hrule)).trans (ih hrest h)

/-- Routing one flow stays in a stretch of columns. -/
theorem routeCircuitFlow_tilesIn {l l' : ChannelLedger} {flow : OpId}
    (hlt : flow < p.slots.size) (hp : p.Sound) (hS : IsStretch S)
    (htiles : p.TilesIn S)
    (h : runOn (routeCircuitFlow device l flow) p = (.ok l', q)) :
    p.Edits (.tilesIn S) q := by
  rw [routeCircuitFlow, get_bind_ok] at h
  dsimp only at h
  obtain ⟨source, r, hread, h⟩ := bind_ok.1 h
  obtain ⟨hsource, rfl⟩ := readEndpoint_ok hread
  obtain ⟨destination, r, hread', h⟩ := bind_ok.1 h
  obtain ⟨hdestination, rfl⟩ := readEndpoint_ok hread'
  obtain ⟨-, h⟩ := ensure_bind_ok.1 h
  obtain ⟨-, h⟩ := ensure_bind_ok.1 h
  obtain ⟨l₁, r, hlay, h⟩ := bind_ok.1 h
  obtain ⟨_, s, herase, h⟩ := bind_ok.1 h
  rw [runOn_erase, Prod.mk.injEq] at herase
  obtain ⟨-, rfl⟩ := herase
  obtain ⟨-, rfl⟩ := pure_ok.1 h
  have hr := layCircuit_tilesIn (htiles.path hS hsource hdestination) hlay
  exact hr.trans (.single (.erase flow (Nat.lt_of_lt_of_le hlt (hr.size_le hp)) trivial))

/-- Routing one packet flow stays in a stretch of columns. -/
theorem routePacketFlow_tilesIn {flow : OpId} (hlt : flow < p.slots.size) (hp : p.Sound)
    (hS : IsStretch S) (htiles : p.TilesIn S)
    (h : runOn (routePacketFlow device flow) p = (.ok (), q)) :
    p.Edits (.tilesIn S) q := by
  obtain ⟨n, a, source, destinations, r, -, -, hsource, hdestinations, -, hloop, rfl⟩ :=
    routePacketFlow_parts h
  have hr : p.Edits (.tilesIn S) r :=
    forM_edits hp hloop fun destination hmem s t _ _ hround => by
      obtain ⟨_, s', hcheck, hlay⟩ := bind_ok.1 hround
      obtain rfl := checkInside_ok hcheck
      obtain ⟨d, -, hdestination⟩ := (mem_iff_of_map_eq hdestinations).1 hmem
      exact layPackets_tilesIn (htiles.path hS hsource hdestination) hlay
  exact hr.trans (.single (.erase flow (Nat.lt_of_lt_of_le hlt (hr.size_le hp)) trivial))

/-- Routing all flows stays in a stretch of columns. -/
theorem routeCircuitFlows_tilesIn (hp : p.Sound) (hS : IsStretch S) (htiles : p.TilesIn S)
    (h : runOn Stage.routeCircuitFlows.action p = (.ok (), q)) : p.Edits (.tilesIn S) q := by
  change runOn (Stage.onEachDevice routeCircuitFlows) p = _ at h
  rw [Stage.onEachDevice, get_bind_ok] at h
  refine forM_edits hp h fun device _ r s hr hedits hrun => ?_
  rw [routeCircuitFlows, get_bind_ok] at hrun
  obtain ⟨_, t, hloop, hrun⟩ := bind_ok.1 hrun
  obtain ⟨-, rfl⟩ := pure_ok.1 hrun
  refine foldlM_induction (I := r.Edits (.tilesIn S)) hloop .refl
    fun flow hflow _ _ t u ht hround => ?_
  have hlt := hr.lt_size_of_walkIn (List.mem_filter.1 hflow).1
  exact ht.trans (routeCircuitFlow_tilesIn (Nat.lt_of_lt_of_le hlt (ht.size_le hr)) (ht.sound hr)
    hS ((hedits.trans ht).tilesIn hp htiles) hround)

/-- Routing all packet flows stays in a stretch of columns. -/
theorem routePacketFlows_tilesIn (hp : p.Sound) (hS : IsStretch S) (htiles : p.TilesIn S)
    (h : runOn Stage.routePacketFlows.action p = (.ok (), q)) : p.Edits (.tilesIn S) q := by
  change runOn (Stage.onEachDevice routePacketFlows) p = _ at h
  rw [Stage.onEachDevice, get_bind_ok] at h
  refine forM_edits hp h fun device _ r s hr hedits hrun => ?_
  rw [routePacketFlows, get_bind_ok] at hrun
  refine forM_edits hr hrun fun flow hflow t u ht hrt hround => ?_
  have hlt := hr.lt_size_of_walkIn (List.mem_filter.1 hflow).1
  exact routePacketFlow_tilesIn (Nat.lt_of_lt_of_le hlt (hrt.size_le hr)) ht
    hS ((hedits.trans hrt).tilesIn hp htiles) hround

/-- The routers create tiles in columns of the tiles that are there and between them only. -/
theorem host_tilesIn (hp : p.Sound) (hS : IsStretch S) (htiles : p.TilesIn S)
    (h : Pipeline.host.run p = (.ok (), q)) : q.TilesIn S := by
  obtain ⟨r, hcircuits, h⟩ := Pipeline.runStages_cons_ok.1 h
  obtain ⟨s, hbroadcasts, h⟩ := Pipeline.runStages_cons_ok.1 h
  obtain ⟨t, hpackets, h⟩ := Pipeline.runStages_cons_ok.1 h
  obtain ⟨u, hmulticasts, h⟩ := Pipeline.runStages_cons_ok.1 h
  obtain ⟨-, rfl⟩ : _ ∧ u = q := Prod.mk.inj h
  have hr := routeCircuitFlows_tilesIn hp hS htiles hcircuits
  have hs := hr.trans ((lowerBroadcasts_edits (hr.sound hp) hbroadcasts).1.tilesIn_of_names
    EditRule.broadcasts_names (by decide) fun _ _ _ hop => hop)
  have ht := hs.trans
    (routePacketFlows_tilesIn (hs.sound hp) hS (hs.tilesIn hp htiles) hpackets)
  have hu := ht.trans ((lowerMulticasts_edits (ht.sound hp) hmulticasts).1.tilesIn_of_names
    EditRule.multicasts_names (by decide) fun _ _ _ hop => hop)
  exact hu.tilesIn hp htiles

/-- **The partition covers the routed design.** When a program without tiles that are further apart
than the range of columns is routed for the host, all tiles of the result are in the columns that
the program had before, so that the number of columns for a package can be taken before routing. -/
theorem host_columnWidth (hp : p.Sound) (hreach : p.ColumnsInReach)
    (h : Pipeline.host.run p = (.ok (), q)) :
    (∀ id ∈ q.findAll "aie.tile", ∀ column, (q.op id).operandInt? 0 = some column →
      column < p.columnWidth) ∧ q.columnWidth ≤ p.columnWidth := by
  have hq := Program.tilesIn_iff.1 (host_tilesIn hp hreach.isStretch p.tilesIn_spans h)
  refine ⟨fun id hid column hcolumn => (hq column ⟨id, hid, hcolumn⟩).lt_columnWidth,
    (Program.tilesIn_columnWidth_iff p.columnWidth_pos).2
      (Program.tilesIn_iff.2 fun column hcolumn =>
      (hq column hcolumn).lt_columnWidth)⟩

/-- A stream from column 3 to column 0 makes tiles in columns 1 and 2, and four columns are what the
program takes before and after. -/
theorem host_columnWidth_crossing : ∃ p q : Program, p.Sound ∧ p.ColumnsInReach ∧
    Pipeline.host.run p = (.ok (), q) ∧
    (p.findAll "aie.tile").map (fun id => (p.op id).tile?) = [some ⟨3, 1⟩, some ⟨0, 2⟩] ∧
    (q.findAll "aie.tile").map (fun id => (q.op id).tile?) =
      [some ⟨0, 1⟩, some ⟨1, 1⟩, some ⟨2, 1⟩, some ⟨3, 1⟩, some ⟨0, 2⟩] ∧
    p.columnWidth = 4 ∧
    (∀ id ∈ q.findAll "aie.tile", ∀ column, (q.op id).operandInt? 0 = some column →
      column < p.columnWidth) ∧ q.columnWidth ≤ p.columnWidth := by
  have hsource : ∃ p, Source.parse ("aie.device(ipu) \x7b %a = aie.tile(3, 1) " ++
      "%b = aie.tile(0, 2) aie.flow(%a, DMA, 0, %b, DMA, 0) \x7d") = .ok p ∧
      (Pipeline.host.run p).1.toOption = some () ∧
      (p.findAll "aie.tile").map (fun id => (p.op id).tile?) = [some ⟨3, 1⟩, some ⟨0, 2⟩] ∧
      ((Pipeline.host.run p).2.findAll "aie.tile").map
          (fun id => ((Pipeline.host.run p).2.op id).tile?) =
        [some ⟨0, 1⟩, some ⟨1, 1⟩, some ⟨2, 1⟩, some ⟨3, 1⟩, some ⟨0, 2⟩] ∧
      p.columnWidth = 4 ∧
      ∀ id ∈ p.findAll "aie.tile", ∀ id' ∈ p.findAll "aie.tile", ∀ a ∈ (p.op id).operandInt? 0,
        ∀ b ∈ (p.op id').operandInt? 0, Integer.Fits (b - a) :=
    exists_ok_of_any (by decide +kernel)
  obtain ⟨p, hparse, hrun, hbefore, hafter, hwidth, hreach⟩ := hsource
  have hp := (Source.parse_ok hparse).1
  have hrun := Pipeline.run_eq_ok hrun
  have hreach : p.ColumnsInReach := fun a b ⟨id, hid, ha⟩ ⟨id', hid', hb⟩ =>
    hreach id hid id' hid' a ha b hb
  exact ⟨p, _, hp, hreach, hrun, hbefore, hafter, hwidth, host_columnWidth hp hreach hrun⟩

/-- A stream between two tiles that are too far apart goes around: it makes a tile in the last
column that there can be, beyond those that the program takes. -/
theorem host_columnWidth_around : ∃ p, Source.parse ("aie.device(array) \x7b " ++
      "%a = aie.tile(-9223372036854775807, 2) %b = aie.tile(9223372036854775806, 2) " ++
      "aie.flow(%a, DMA, 0, %b, DMA, 0) \x7d") = .ok p ∧
    p.definedValues.Nodup ∧ (Pipeline.host.run p).1.toOption = some () ∧
    p.columnWidth = 9223372036854775807 ∧
    (Pipeline.host.run p).2.columnWidth = 9223372036854775808 ∧
    some ⟨9223372036854775807, 2⟩ ∈ ((Pipeline.host.run p).2.findAll "aie.tile").map
      (fun id => ((Pipeline.host.run p).2.op id).tile?) :=
  exists_ok_of_any (by decide +kernel)

end TileFlow
