import TileFlow.Routing.Packet
import TileFlow.Proofs.Routing.Circuit
import TileFlow.Proofs.Routing.Trace
import TileFlow.Proofs.Stage.Edits

/-!
# Packet routing

What the router of packets works on is a table: the switchboxes of a device in their order, each
with its tile and its rules. A rule is put into the first switchbox of its tile unless that one has
it, or into a new one behind all others. So a rule that no switchbox of the tile had before is in
the table once, however often it is put there, and no other rule comes or goes.

The stage that routes packet flows creates tiles and switchboxes when they are missing, and rules in
the switchboxes, and leaves no packet flow in any device. A rule that leads to a neighbouring tile
does so on channel 0; only the rule at the end of a path uses the channel of a destination.

## Main definitions

* `RuleTable`: switchboxes with their tiles and rules.
* `RuleTable.add`: one more rule.
* `packetHops`: the connections of packets along a path.
* `Connection.OnPath`: the connection of packets at one tile of a path.
* `Reaches`: packets that leave a tile where they are asked to.
* `Program.Seats`: operations that sit on a tile which a value names.
* `EditRule.packets`: the edits of the stage.

## Main results

* `RuleTable.count_on_addAll`: how often a rule is on a tile in the end.
* `mem_packetHops_iff`: the connections along a path, tile by tile.
* `packetHops_reaches`: following them leads to the end of the path.
* `routePacketFlows_edits`: what the stage does.
-/

/-! ## Tables of rules -/

namespace TileFlow

/-! ### Tables -/

/-- The switchboxes of a device: the tile of each, if it has one, and its rules. -/
abbrev RuleTable := List (Option Tile × List Operation)

namespace RuleTable

variable {T T' : RuleTable} {t u : Tile} {rule r : Operation} {rules : List Operation}

/-- The rules in the switchboxes on a tile. -/
def on (T : RuleTable) (t : Tile) : List Operation :=
  T.flatMap fun box => if box.1 = some t then box.2 else []

/-- The rules in the first switchbox on a tile. -/
def first (T : RuleTable) (t : Tile) : List Operation :=
  ((T.find? fun box => box.1 == some t).map (·.2)).getD []

/-- A rule is put into the first switchbox on a tile, or into a new one at the end, unless it is
there. -/
def add (t : Tile) (rule : Operation) : RuleTable → RuleTable
  | [] => [(some t, [rule])]
  | (u, rules) :: rest =>
    if u = some t then (u, if rule ∈ rules then rules else rules ++ [rule]) :: rest
    else (u, rules) :: add t rule rest

/-- Rules are put on their tiles one after the other. -/
def addAll (T : RuleTable) (new : List (Tile × Operation)) : RuleTable :=
  new.foldl (fun T e => T.add e.1 e.2) T

@[simp] theorem addAll_nil (T : RuleTable) : T.addAll [] = T := rfl

@[simp] theorem addAll_cons (T : RuleTable) (e : Tile × Operation) (new : List (Tile × Operation)) :
    T.addAll (e :: new) = (T.add e.1 e.2).addAll new := rfl

/-- Rules are added in order. -/
theorem addAll_append (T : RuleTable) (new new' : List (Tile × Operation)) :
    T.addAll (new ++ new') = (T.addAll new).addAll new' :=
  List.foldl_append

/-- The rules on a tile of one more switchbox and the others. -/
theorem on_cons (box : Option Tile × List Operation) (T : RuleTable) (t : Tile) :
    on (box :: T) t = (if box.1 = some t then box.2 else []) ++ T.on t :=
  List.flatMap_cons

/-- The first switchbox on a tile, of one more and the others. -/
theorem first_cons (box : Option Tile × List Operation) (T : RuleTable) (t : Tile) :
    first (box :: T) t = if box.1 = some t then box.2 else T.first t := by
  by_cases h : box.1 = some t <;> simp [first, h]

/-- The rules of the first switchbox on a tile are on that tile. -/
theorem mem_on_of_mem_first (h : rule ∈ T.first t) : rule ∈ T.on t := by
  induction T with
  | nil => cases h
  | cons box T ih =>
      rw [first_cons] at h
      rw [on_cons, List.mem_append]
      by_cases hbox : box.1 = some t
      · rw [if_pos hbox] at h ⊢
        exact .inl h
      · rw [if_neg hbox] at h
        exact .inr (ih h)

/-- A rule is put behind the switchboxes on other tiles. -/
theorem add_append (hT : ∀ box ∈ T, box.1 ≠ some t) (T' : RuleTable) :
    add t rule (T ++ T') = T ++ add t rule T' := by
  induction T with
  | nil => rfl
  | cons box T ih =>
      obtain ⟨hbox, hT⟩ := List.forall_mem_cons.1 hT
      rw [List.cons_append, add, if_neg hbox, ih hT, List.cons_append]

/-- A rule is put into the first of several switchboxes that is on the tile. -/
theorem add_map {boxes : List OpId} {box : OpId} {place : OpId → Option Tile}
    {held : OpId → List Operation} (hnodup : boxes.Nodup)
    (hbox : boxes.find? (place · == some t) = some box) :
    RuleTable.add t rule (boxes.map fun b => (place b, held b)) =
      boxes.map fun b =>
    (place b, if b = box ∧ rule ∉ held b then held b ++ [rule] else held b) := by
  induction boxes with
  | nil => cases hbox
  | cons b rest ih =>
      obtain ⟨hnot, hnodup⟩ := List.nodup_cons.1 hnodup
      rw [List.map_cons, List.map_cons, add]
      by_cases hplace : place b = some t
      · rw [List.find?_cons_of_pos (by rw [hplace]; exact beq_self_eq_true _)] at hbox
        obtain rfl := Option.some.inj hbox
        have hrest : rest.map (fun c => (place c, held c)) = rest.map fun c =>
            (place c, if c = b ∧ rule ∉ held c then held c ++ [rule] else held c) :=
          List.map_congr_left fun c hc => by
            rw [if_neg]
            rintro ⟨rfl, -⟩
            exact hnot hc
        by_cases hmem : rule ∈ held b <;> simp [hplace, hmem, hrest]
      · rw [List.find?_cons_of_neg (by simpa using hplace)] at hbox
        have hb : b ≠ box := by
          rintro rfl
          exact hnot (List.mem_of_find?_eq_some hbox)
        rw [if_neg hplace, ih hnodup hbox, if_neg fun h => hb h.1]

/-- A rule is put into the first switchbox on a tile, if it is not there, and others stay. -/
theorem mem_first_add : r ∈ (T.add t rule).first u ↔ r ∈ T.first u ∨ (u = t ∧ r = rule) := by
  induction T with
  | nil =>
      by_cases h : u = t
      · subst h
        simp [add, first]
      · simp [add, first, h, Ne.symm h]
  | cons box T ih =>
      obtain ⟨tile, rules⟩ := box
      rw [add]
      split
      · rename_i htile
        subst htile
        simp only [first_cons]
        by_cases h : some t = some u
        · cases h
          by_cases hmem : rule ∈ rules
          · simp only [hmem, if_true, true_and, iff_self_or]
            rintro rfl
            exact hmem
          · simp [hmem]
        · have hne : u ≠ t := fun heq => h (congrArg some heq.symm)
          simp [h, hne]
      · rename_i htile
        simp only [first_cons]
        by_cases h : tile = some u
        · subst h
          have hne : u ≠ t := fun heq => htile (congrArg some heq)
          simp [hne]
        · simpa [h] using ih

/-- One more rule is on the tile where it is put unless the first switchbox there has it. -/
theorem count_on_add : ((T.add t rule).on u).count r =
    (T.on u).count r + if u = t ∧ r = rule ∧ r ∉ T.first u then 1 else 0 := by
  induction T with
  | nil =>
      by_cases h : t = u
      · subst h
        by_cases hr : r = rule
        · simp [add, on, first, hr]
        · simp [add, on, hr, Ne.symm hr]
      · simp [add, on, h, Ne.symm h]
  | cons box T ih =>
      obtain ⟨tile, rules⟩ := box
      rw [add]
      split
      · rename_i htile
        subst htile
        simp only [on_cons, first_cons, List.count_append]
        by_cases h : some t = some u
        · cases h
          by_cases hmem : rule ∈ rules
          · have : ¬(r = rule ∧ r ∉ rules) := fun hr => hr.2 (hr.1 ▸ hmem)
            simp [hmem, this]
          · by_cases hr : r = rule
            · subst hr
              simp [hmem]
              omega
            · simp [hmem, hr, Ne.symm hr]
        · have hne : u ≠ t := fun heq => h (congrArg some heq.symm)
          simp [h, hne]
      · rename_i htile
        simp only [on_cons, first_cons, List.count_append, ih]
        by_cases h : tile = some u
        · subst h
          have hne : u ≠ t := fun heq => htile (congrArg some heq)
          simp [hne]
        · simp [h]

/-- **Rules are put in place once.** A rule is once more on a tile than before if it was put there,
unless the first switchbox there had it, and else as often as before. -/
theorem count_on_addAll (new : List (Tile × Operation)) : ((T.addAll new).on u).count r =
    (T.on u).count r + if (u, r) ∈ new ∧ r ∉ T.first u then 1 else 0 := by
  induction new generalizing T with
  | nil => simp
  | cons e new ih =>
      obtain ⟨t, rule⟩ := e
      simp only [addAll_cons, ih, count_on_add, mem_first_add]
      by_cases he : u = t ∧ r = rule
      · obtain ⟨rfl, rfl⟩ := he
        simp
      · have hne : (u, r) ≠ (t, rule) := fun heq => he (Prod.mk.inj heq)
        have hnot : ¬(u = t ∧ r = rule ∧ r ∉ T.first u) := fun h => he ⟨h.1, h.2.1⟩
        simp [he, hne, hnot]

/-- The rules on a tile are those of before and those that were put there. -/
theorem mem_on_addAll (new : List (Tile × Operation)) :
    r ∈ (T.addAll new).on u ↔ r ∈ T.on u ∨ (u, r) ∈ new := by
  by_cases hnew : (u, r) ∈ new ∧ r ∉ T.first u
  · have hcount : 0 < ((T.addAll new).on u).count r := by
      rw [count_on_addAll, if_pos hnew]
      exact Nat.succ_pos _
    simp [List.count_pos_iff.1 hcount, hnew.1]
  · rw [← List.count_pos_iff, count_on_addAll, if_neg hnew, Nat.add_zero, List.count_pos_iff,
      iff_self_or]
    exact fun hmem =>
      mem_on_of_mem_first (Classical.byContradiction fun hfirst => hnew ⟨hmem, hfirst⟩)

/-- A rule that was on no switchbox of a tile is there once when it was put there. -/
theorem count_on_addAll_of_new {new : List (Tile × Operation)} (hr : r ∉ T.on u)
    (hnew : (u, r) ∈ new) : ((T.addAll new).on u).count r = 1 := by
  rw [count_on_addAll, List.count_eq_zero.2 hr,
    if_pos ⟨hnew, fun hfirst => hr (mem_on_of_mem_first hfirst)⟩]

end RuleTable

/-! ### Packets along a path -/

/-- The connections of packets that enter the first tile of a path at an input and leave the last
one at an output, on channel 0 between tiles. -/
def packetHops (output : Channel) : Channel → List Tile → List Connection
  | _, [] => []
  | input, [tile] => [⟨tile, input, output⟩]
  | input, tile :: next :: rest =>
    ⟨tile, input, (Direction.between tile next).channel 0⟩ ::
      packetHops output ((Direction.between tile next).opposite.channel 0) (next :: rest)

/-- Whether a connection is the one of packets at a tile of a path: from the side of the tile
before, or an input at the first tile, to the side of the tile behind, or an output at the last
one. -/
def Connection.At (c : Connection) (input output : Channel) (path : List Tile) : Prop :=
  ∃ before after, path = before ++ c.tile :: after ∧
    c.input = ((before.getLast?.map fun t => (Direction.between c.tile t).channel 0).getD input) ∧
    c.output = ((after.head?.map fun t => (Direction.between c.tile t).channel 0).getD output)

/-- Whether a connection is the one of packets at a tile of the path between two endpoints. -/
def Connection.OnPath (c : Connection) (source destination : Endpoint) : Prop :=
  c.At source.channel destination.channel (source.tile.pathTo destination.tile)

/-- Whether packets that enter a tile at an endpoint leave one at another endpoint. -/
def Reaches (K : Connection → Prop) (source destination : Endpoint) : Prop :=
  ∃ c, K c ∧ Leads K source c.start ∧ c.finish = destination

section Packets

variable {input output : Channel} {t u : Tile} {path : List Tile} {c : Connection}
  {K : Connection → Prop}

/-- From the next tile back it is the opposite direction. -/
theorem Direction.between_step_self (d : Direction) (t : Tile) : between (d.step t) t =
    d.opposite := by
  have := between_step d.opposite (d.step t)
  rwa [opposite_step_step] at this

/-- At a tile behind the first one of a path, the connection starts at the side of the tile before,
be that the first one or not. -/
theorem start_side_cons {before after rest : List Tile} {d : Direction}
    (hsplit : d.step t :: rest = before ++ u :: after) :
    (((t :: before).getLast?.map fun s => (Direction.between u s).channel 0).getD input) =
      (before.getLast?.map fun s => (Direction.between u s).channel 0).getD
    (d.opposite.channel 0) := by
  cases before with
  | nil =>
      rw [List.nil_append, List.cons.injEq] at hsplit
      rw [← hsplit.1]
      simp [Direction.between_step_self]
  | cons b before => simp [List.getLast?_cons]

/-- The connections along a path, tile by tile. -/
theorem mem_packetHops_iff (hpath : IsPath t u path) :
    c ∈ packetHops output input path ↔ c.At input output path := by
  induction hpath generalizing input with
  | single t =>
      rw [packetHops, List.mem_singleton]
      constructor
      · rintro rfl
        exact ⟨[], [], rfl, rfl, rfl⟩
      · rintro ⟨before, after, hsplit, hinput, houtput⟩
        obtain ⟨rfl, htile, rfl⟩ : before = [] ∧ t = c.tile ∧ after = [] := by
          cases before with
          | nil =>
              rw [List.nil_append, List.cons.injEq] at hsplit
              exact ⟨rfl, hsplit.1, hsplit.2.symm⟩
          | cons b before => simp at hsplit
        obtain ⟨tile, i, o⟩ := c
        cases htile
        cases hinput
        cases houtput
        rfl
  | @cons d t u path hpath ih =>
      obtain ⟨rest, rfl⟩ := hpath.eq_cons
      rw [packetHops, List.mem_cons, ih, Direction.between_step]
      constructor
      · rintro (rfl | ⟨before, after, hsplit, hinput, houtput⟩)
        · exact ⟨[], _, rfl, rfl, by simp⟩
        · exact ⟨t :: before, after, by rw [hsplit, List.cons_append],
            hinput.trans (start_side_cons hsplit).symm, houtput⟩
      · rintro ⟨before, after, hsplit, hinput, houtput⟩
        cases before with
        | nil =>
            rw [List.nil_append, List.cons.injEq] at hsplit
            obtain ⟨htile, rfl⟩ := hsplit
            left
            obtain ⟨tile, i, o⟩ := c
            cases htile
            cases hinput
            simpa using houtput
        | cons b before =>
            rw [List.cons_append, List.cons.injEq] at hsplit
            obtain ⟨rfl, hsplit⟩ := hsplit
            exact .inr ⟨before, after, hsplit, hinput.trans (start_side_cons hsplit), houtput⟩

/-- Following the connections along a path leads from its start to its end. -/
theorem packetHops_reaches (hpath : IsPath t u path)
    (hK : ∀ c ∈ packetHops output input path, K c) : Reaches K ⟨t, input⟩ ⟨u, output⟩ := by
  induction hpath generalizing input with
  | single t => exact ⟨⟨t, input, output⟩, hK _ List.mem_cons_self, .refl _, rfl⟩
  | @cons d t u path hpath ih =>
      obtain ⟨rest, rfl⟩ := hpath.eq_cons
      rw [packetHops, Direction.between_step, List.forall_mem_cons] at hK
      obtain ⟨c, hc, hleads, hfinish⟩ := ih hK.2
      exact ⟨c, hc, .hop hK.1 (next?_side t input d 0) hleads, hfinish⟩

end Packets

end TileFlow

/-! ## Edits of the stage -/

namespace TileFlow

open TileFlow.Action

variable {rule : EditRule} {p q : Program} {device : OpId}

/-! ### Tiles and switchboxes -/

/-- The tile of a new value is all that is created for it. -/
theorem tileValue_edits {tile : Tile} {value : String}
    (tiles : ∀ op, op.is "aie.tile" = true → op.tile? = some tile → rule.creates p (some device) op)
    (h : runOn (tileValue device tile) p = (.ok value, q)) : p.Edits rule q := by
  rw [tileValue, get_bind_ok] at h
  split at h
  · obtain ⟨-, rfl⟩ := pure_ok.1 h
    exact .refl
  · dsimp only at h
    obtain ⟨_, r, hprepend, h⟩ := bind_ok.1 h
    rw [runOn_prepend, Prod.mk.injEq] at hprepend
    obtain ⟨-, rfl⟩ := hprepend
    obtain ⟨-, rfl⟩ := pure_ok.1 h
    refine .single (.create (some device) 0 _ (tiles _ rfl rfl) fun v hv => ?_)
    cases hv
    exact p.freshValue_notMem _

/-- Whether an operation has no result and one operand, the value of a tile. -/
def Program.Seats (p : Program) (op : Operation) : Prop :=
  op.result = none ∧ ∃ v id, op.operands = [.value v] ∧ id ∈ p.walk ∧
    (p.op id).result = some v ∧ (p.op id).is "aie.tile" = true ∧ (p.op id).tile?.isSome = true

/-- The value of a tile, created or not, is the result of one. -/
theorem tileValue_isTile {tile : Tile} {value : String} (hp : p.Sound) (hdevice : device ∈ p.walk)
    (h : runOn (tileValue device tile) p = (.ok value, q)) :
    ∃ id ∈ q.walk, (q.op id).result = some value ∧ (q.op id).is "aie.tile" = true ∧
      (q.op id).tile? = some tile := by
  rw [tileValue, get_bind_ok] at h
  split at h
  · rename_i found hfound
    obtain ⟨rfl, rfl⟩ := pure_ok.1 h
    obtain ⟨id, hid, hresult⟩ := Option.bind_eq_some_iff.1 hfound
    obtain ⟨hin, hname⟩ := List.mem_filter.1 (List.mem_of_find?_eq_some hid)
    have htile := List.find?_some hid
    exact ⟨id, hp.toWellFormed.mem_walk_of_walkIn hdevice hin, hresult, hname, by simpa using htile⟩
  · dsimp only at h
    obtain ⟨_, r, hprepend, h⟩ := bind_ok.1 h
    rw [runOn_prepend, Prod.mk.injEq] at hprepend
    obtain ⟨-, rfl⟩ := hprepend
    obtain ⟨rfl, rfl⟩ := pure_ok.1 h
    have hnew := Program.created_insertAt hp (some device) 0
      { name := "aie.tile"
        result := some (p.freshValue s!"tile_{tile.column}_{tile.row}")
        operands := [.int tile.column, .int tile.row] }
    have hholds : p.Holds (some device) := fun a ha => Option.some.inj ha ▸ hdevice
    refine ⟨p.slots.size, (hnew.walk _).2 (.inr ⟨rfl, hholds⟩), ?_⟩
    rw [hnew.new hholds]
    exact ⟨rfl, rfl, rfl⟩

/-- A tile and a switchbox are all that is created for a switchbox, and the switchbox sits on a
tile. -/
theorem switchboxFor_edits {tile : Tile} {box : OpId}
    (tiles : ∀ op, op.is "aie.tile" = true → op.tile? = some tile → rule.creates p (some device) op)
    (boxes : ∀ r parent op, (p.Sound → device ∈ p.devices → r.Seats op) →
      op.is "aie.switchbox" = true → rule.creates r parent op)
    (h : runOn (switchboxFor device tile) p = (.ok box, q)) : p.Edits rule q := by
  rw [switchboxFor, get_bind_ok] at h
  split at h
  · obtain ⟨-, rfl⟩ := pure_ok.1 h
    exact .refl
  · obtain ⟨value, r, hvalue, h⟩ := bind_ok.1 h
    refine (tileValue_edits tiles hvalue).trans
      (append_edits h (boxes _ _ _ (fun hp hdevice => ?_) rfl) (Program.fresh_of_none rfl))
    obtain ⟨id, hid, hresult, hname, htile⟩ :=
      tileValue_isTile hp (Program.mem_walk_of_mem_devices hdevice) hvalue
    exact ⟨rfl, value, id, rfl, hid, hresult, hname, by rw [htile]; rfl⟩

/-! ### Rules -/

/-- Whether an operation is a destination at a bundle. -/
def Operation.IsDestination (op : Operation) (bundle : String) : Prop :=
  op.is "aie.packet_dest" = true ∧ op.operandText? 1 = some bundle

/-- Packet flows are erased. Tiles, switchboxes and rules are created, the tiles right in devices
and the switchboxes on tiles, and a rule uses channel 0 unless it ends at the bundle of a
destination. -/
def EditRule.packets : EditRule where
  creates p parent op := (op.is "aie.tile" = true ∧ ∃ device ∈ p.devices, parent = some device) ∨
    (p.Seats op ∧ op.is "aie.switchbox" = true) ∨
    ∃ id input output, op = packetRule id input output ∧
      (output.index = 0 ∨ ∃ d < p.slots.size, (p.op d).IsDestination output.bundle)
  changes _ _ _ := False
  erases p id := (p.op id).is "aie.packet_flow" = true

/-- Routing packet flows creates tiles, switchboxes and packet rules. -/
theorem EditRule.packets_creates_cases {parent : Option OpId} {op : Operation}
    (h : EditRule.packets.creates p parent op) :
    op.is "aie.tile" = true ∨ op.is "aie.switchbox" = true ∨ op.is "aie.packet_rule" = true := by
  rcases h with ⟨h, -⟩ | ⟨-, h⟩ | ⟨id, input, output, rfl, -⟩
  · exact .inl h
  · exact .inr (.inl h)
  · exact .inr (.inr rfl)

/-- Routing packet flows leaves devices alone. -/
theorem EditRule.packets_sparesDevices : EditRule.packets.SparesDevices where
  creates _ _ _ hop := by
    rcases packets_creates_cases hop with h | h | h <;> exact Operation.not_is_of_is h (by decide)
  changes _ _ _ hop := hop.elim
  erases _ _ hop := Operation.not_is_of_is hop (by decide)

/-- Routing packet flows leaves none of them. -/
theorem EditRule.packets_dissolves : EditRule.packets.Dissolves "aie.packet_flow" where
  creates _ _ _ hop := by
    rcases packets_creates_cases hop with h | h | h <;> exact Operation.not_is_of_is h (by decide)
  changes _ _ _ hop := hop.elim
  erases _ _ hop := hop

/-- What routing packet flows creates, by name. -/
theorem EditRule.packets_names :
    EditRule.packets.Names ["aie.tile", "aie.switchbox", "aie.packet_rule"] where
  creates _ _ op hop := by
    rcases packets_creates_cases hop with h | h | h <;> simp [beq_iff_eq.1 h]
  changes _ _ _ hop := hop.elim

/-- A switchbox for packets is created by the rules. -/
theorem packetBox_edits {tile : Tile} {box : OpId} (hp : p.Sound) (hdevice : device ∈ p.devices)
    (h : runOn (switchboxFor device tile) p = (.ok box, q)) : p.Edits .packets q :=
  switchboxFor_edits (fun _ h _ => .inl ⟨h, device, hdevice, rfl⟩)
    (fun _ _ _ hseats h => .inr (.inl ⟨hseats hp hdevice, h⟩)) h

/-- An operation that is added once is added by the rules. -/
theorem addOnce_edits {box : OpId} {op : Operation} (creates : rule.creates p (some box) op)
    (hop : op.result = none) (h : runOn (addOnce box op) p = (.ok (), q)) : p.Edits rule q := by
  rw [addOnce, get_bind_ok] at h
  dsimp only at h
  split at h
  · obtain ⟨-, rfl⟩ := pure_ok.1 h
    exact .refl
  · obtain ⟨_, r, happend, h⟩ := bind_ok.1 h
    obtain ⟨-, rfl⟩ := pure_ok.1 h
    exact append_edits happend creates (Program.fresh_of_none hop)

/-- A destination stays one while packets are routed. -/
theorem Program.Edits.destination {bundle : String} (hp : p.Sound) (h : p.Edits .packets q)
    (hd : ∃ d < p.slots.size, (p.op d).IsDestination bundle) :
    ∃ d < q.slots.size, (q.op d).IsDestination bundle := by
  obtain ⟨d, hlt, hname, htext⟩ := hd
  have hheader := h.sameHeader hp (fun _ _ _ hop => hop) hlt
  refine ⟨d, Nat.lt_of_lt_of_le hlt (h.size_le hp), by rw [hheader.is, hname], ?_⟩
  rw [Operation.operandText?, hheader.operands]
  exact htext

/-- The rules along a path lead to the next tile on channel 0, and end at a destination. -/
theorem layPackets_edits {id : Int} {input output : Channel} {path : List Tile} (hp : p.Sound)
    (hdevice : device ∈ p.devices)
    (hd : ∃ d < p.slots.size, (p.op d).IsDestination output.bundle)
    (h : runOn (layPackets device id output input path) p = (.ok (), q)) : p.Edits .packets q := by
  induction path generalizing p input with
  | nil =>
      rw [layPackets] at h
      obtain ⟨-, rfl⟩ := pure_ok.1 h
      exact .refl
  | cons tile path ih =>
      cases path with
      | nil =>
          rw [layPackets] at h
          obtain ⟨box, r, hbox, h⟩ := bind_ok.1 h
          have hr := packetBox_edits hp hdevice hbox
          exact hr.trans (addOnce_edits
            (.inr (.inr ⟨id, input, output, rfl, .inr (hr.destination hp hd)⟩)) rfl h)
      | cons next rest =>
          rw [layPackets] at h
          obtain ⟨box, r, hbox, h⟩ := bind_ok.1 h
          obtain ⟨_, s, hadd, h⟩ := bind_ok.1 h
          have hs := (packetBox_edits hp hdevice hbox).trans
            (addOnce_edits (.inr (.inr ⟨id, input, _, rfl, .inl rfl⟩)) rfl hadd)
          exact hs.trans (ih (hs.sound hp)
            ((hs.mem_devices EditRule.packets_sparesDevices hp).2 hdevice) (hs.destination hp hd) h)

/-! ### Packet flows -/

/-- Checking a tile against the array changes nothing. -/
theorem checkInside_ok {model : DeviceModel} {tile : Tile}
    (h : runOn (checkInside model tile) p = (.ok (), q)) : p = q :=
  (ensure_ok.1 h).2

/-- The bundle of an endpoint is the operand after its tile. -/
theorem operandText?_of_endpoint? {op : Operation} {first : Nat} {e : Endpoint}
    (h : p.endpoint? op first = some e) : op.operandText? (first + 1) = some e.channel.bundle := by
  rw [Program.endpoint?] at h
  split at h
  · rename_i htext _
    cases h
    exact htext
  · cases h

/-- A packet flow is read in the program as it is, and then a path is laid to each destination. -/
theorem routePacketFlow_parts {flow : OpId}
    (h : runOn (routePacketFlow device flow) p = (.ok (), q)) :
    ∃ (n : Int) (a : OpId) (source : Endpoint) (destinations : List Endpoint) (r : Program),
      (p.op flow).operandInt? 0 = some n ∧ p.findIn flow "aie.packet_source" = [a] ∧
      p.endpoint? (p.op a) 0 = some source ∧
      (p.findIn flow "aie.packet_dest").map (fun d => p.endpoint? (p.op d) 0) =
        destinations.map some ∧ destinations ≠ [] ∧
      runOn (destinations.forM fun destination => do
        checkInside (p.modelOf device) destination.tile
        layPackets device n destination.channel source.channel
          (source.tile.pathTo destination.tile)) p = (.ok (), r) ∧ q = r.erase flow := by
  rw [routePacketFlow, get_bind_ok] at h
  obtain ⟨n, hn, h⟩ := orFail_bind_ok.1 h
  extract_lets route at h
  have hroute : ∃ a source, p.findIn flow "aie.packet_source" = [a] ∧
      p.endpoint? (p.op a) 0 = some source ∧ runOn (route source) p = (.ok (), q) := by
    split at h
    · rename_i a hsingle
      obtain ⟨source, r, hsource, h⟩ := bind_ok.1 h
      obtain ⟨hend, rfl⟩ := readEndpoint_ok hsource
      exact ⟨a, source, hsingle, hend, h⟩
    · rw [runOn_bind, runOn_throw] at h
      cases h
  obtain ⟨a, source, hsingle, hsource, h⟩ := hroute
  obtain ⟨_, r, hinside, h⟩ := bind_ok.1 h
  obtain rfl := checkInside_ok hinside
  obtain ⟨destinations, r, hread, h⟩ := bind_ok.1 h
  obtain ⟨rfl, hdestinations⟩ :=
    mapM_ok (fun r d => r.endpoint? (p.op d) 0) (fun _ _ _ _ => readEndpoint_ok) hread
  obtain ⟨hnonempty, h⟩ := ensure_bind_ok.1 h
  obtain ⟨_, r, hloop, h⟩ := bind_ok.1 h
  exact ⟨n, a, source, destinations, r, hn, hsingle, hsource, hdestinations,
    fun hnil => by simp [hnil] at hnonempty, hloop, by simpa [eq_comm] using h⟩

/-- What is read is what some item says. -/
theorem mem_iff_of_map_eq {β γ : Type} {read : β → Option γ} {l : List β} {cs : List γ}
    (h : l.map read = cs.map some) {c : γ} : c ∈ cs ↔ ∃ b ∈ l, read b = some c := by
  rw [← List.mem_map, h, List.mem_map]
  simp

/-- Routing one packet flow creates rules and erases the flow. -/
theorem routePacketFlow_ok {flow : OpId} (hp : p.Sound) (hdevice : device ∈ p.devices)
    (h : runOn (routePacketFlow device flow) p = (.ok (), q)) :
    ∃ r, p.Edits .packets r ∧ q = r.erase flow := by
  obtain ⟨n, a, source, destinations, r, -, -, -, hdestinations, -, hloop, rfl⟩ :=
    routePacketFlow_parts h
  refine ⟨r, forM_edits hp hloop fun destination hmem s t hs hedits hround => ?_, rfl⟩
  obtain ⟨_, s', hcheck, hlay⟩ := bind_ok.1 hround
  obtain rfl := checkInside_ok hcheck
  obtain ⟨d, hd, hend⟩ := (mem_iff_of_map_eq hdestinations).1 hmem
  obtain ⟨hin, hname⟩ := List.mem_filter.1 hd
  refine layPackets_edits hs ((hedits.mem_devices EditRule.packets_sparesDevices hp).2 hdevice)
    (hedits.destination hp ?_) hlay
  exact ⟨d, hp.lt_size_of_walkIn hin, hname, operandText?_of_endpoint? hend⟩

/-- Packet flows are replaced by rules, and none is left in any device. -/
theorem routePacketFlows_edits (hp : p.Sound)
    (h : runOn Stage.routePacketFlows.action p = (.ok (), q)) :
    p.Edits .packets q ∧ ∀ device ∈ q.devices, ∀ id ∈ q.walkIn device,
      (q.op id).is "aie.packet_flow" = false :=
  Stage.dissolves EditRule.packets_sparesDevices EditRule.packets_dissolves hp h
    fun _ _ _ _ hr _ hdevice _ _ _ hrun => routePacketFlow_ok hr hdevice hrun

end TileFlow
