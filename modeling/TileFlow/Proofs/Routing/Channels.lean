import TileFlow.Proofs.Package.Sizes
import TileFlow.Proofs.Routing.Wires

/-!
# The channels that circuits take

A ledger starts behind the connections that a device has, and hands out one channel after the other.
The wires that it has handed out are those between where it started and where it is, so no two hops
share one, and none has a connection that was there before. The ledger does not look back: it is at
the end of a direction when the last channels are taken, whether or not there are free ones below a
connection that was there before.

## Main definitions

* `Circuit`: a flow with its ends and its connections.
* `ChannelLedger.Behind`: where a ledger starts.
* `ChannelLedger.Hands`: what a ledger has handed out.
* `Program.Lays`, `Program.Carries`: what the router does to a program.

## Main results

* `routeCircuitFlows_channels`: every hop takes a free channel.
* `routeCircuitFlows_exhausted`: what is taken when there is no next channel.
-/

namespace TileFlow

open TileFlow.Action

variable {p q r s : Program} {device : OpId} {cs cs' : List Connection}

/-! ### Ledgers -/

/-- Direction and number of a channel can be told from it. -/
theorem Direction.channel_inj {d e : Direction} {m n : Int} :
    d.channel m = e.channel n ↔ d = e ∧ m = n := by
  rw [Direction.channel, Direction.channel, Channel.mk.injEq]
  exact and_congr_left' ⟨Direction.name_injective, congrArg _⟩

namespace ChannelLedger

variable {l l' l₀ : ChannelLedger} {used : Tile → Direction → Int → Prop} {wires : List Endpoint}
  {t : Tile} {d : Direction} {n : Int}

/-- Whether a ledger is right behind the last channel in use, in every direction. The greatest
integer has nothing behind it, and is passed over. -/
structure Behind (l : ChannelLedger) (used : Tile → Direction → Int → Prop) : Prop where
  nonneg : ∀ t d, 0 ≤ l.next t d
  used_lt : ∀ t d n, used t d n → n ≠ Integer.greatest → n < l.next t d
  last : ∀ t d, 0 < l.next t d → used t d (l.next t d - 1)

/-- The empty ledger is behind nothing in use. -/
theorem behind_empty : empty.Behind fun _ _ _ => False where
  nonneg _ _ := Int.le_refl 0
  used_lt _ _ _ h _ := h.elim
  last _ _ h := absurd h (Int.lt_irrefl 0)

/-- What a ledger is behind depends on the channels in use only. -/
theorem Behind.congr {used' : Tile → Direction → Int → Prop} (h : l.Behind used)
    (hused : ∀ t d n, used t d n ↔ used' t d n) : l.Behind used' where
  nonneg := h.nonneg
  used_lt t d n hn := h.used_lt t d n ((hused t d n).2 hn)
  last t d hpos := (hused t d _).1 (h.last t d hpos)

/-- A channel that is occupied is in use. -/
theorem Behind.occupy (h : l.Behind used) (tile : Tile) (direction : Direction) (channel : Int) :
    (l.occupy tile direction channel).Behind fun t d n =>
      used t d n ∨ (t = tile ∧ d = direction ∧ n = channel) where
  nonneg t d := by
    simp only [ChannelLedger.occupy, set]
    split
    · exact Int.le_trans (h.nonneg tile direction) (Int.le_max_left _ _)
    · exact h.nonneg t d
  used_lt t d n hn hgreatest := by
    simp only [ChannelLedger.occupy, set]
    rcases hn with hn | ⟨rfl, rfl, rfl⟩
    · have := h.used_lt t d n hn hgreatest
      split
      · rename_i htd
        obtain ⟨rfl, rfl⟩ := htd
        omega
      · exact this
    · simp only [and_self, if_true]
      rw [Integer.following, if_neg hgreatest]
      omega
  last t d := by
    simp only [ChannelLedger.occupy, set]
    split
    · rename_i htd
      obtain ⟨rfl, rfl⟩ := htd
      intro hpos
      rcases Int.le_total (Integer.following channel) (l.next t d) with hle | hle
      · rw [Int.max_eq_left hle] at hpos ⊢
        exact .inl (h.last t d hpos)
      · rw [Int.max_eq_right hle] at hpos ⊢
        refine .inr ⟨rfl, rfl, ?_⟩
        rw [Integer.following] at hpos ⊢
        split
        · rename_i hgreatest
          rw [if_pos hgreatest] at hpos
          exact absurd hpos (by decide)
        · omega
    · exact fun hpos => .inl (h.last t d hpos)

/-- A loop that occupies what belongs to each item occupies what belongs to all of them. -/
theorem Behind.foldl {β : Type} {f : ChannelLedger → β → ChannelLedger}
    (new : β → Tile → Direction → Int → Prop)
    (hf : ∀ {l used} b, l.Behind used → (f l b).Behind fun t d n => used t d n ∨ new b t d n)
    (h : l.Behind used) (bs : List β) :
    (bs.foldl f l).Behind fun t d n => used t d n ∨ ∃ b ∈ bs, new b t d n := by
  induction bs generalizing l used with
  | nil => exact h.congr fun t d n => by simp
  | cons b bs ih =>
      rw [List.foldl_cons]
      exact (ih (hf b h)).congr fun t d n => by simp [or_assoc]

/-- What a ledger has handed out: the channels between where it started and where it is. -/
structure Hands (l₀ : ChannelLedger) (wires : List Endpoint) (l : ChannelLedger) : Prop where
  le : ∀ t d, l₀.next t d ≤ l.next t d
  mem_iff : ∀ t d n, ⟨t, Direction.channel d n⟩ ∈ wires ↔ l₀.next t d ≤ n ∧ n < l.next t d
  inside : ∀ e ∈ wires, ∃ d n, e.channel = Direction.channel d n ∧ n < d.capacity
  nodup : wires.Nodup

/-- Handing out nothing leaves the ledger. -/
theorem Hands.refl (l : ChannelLedger) : l.Hands [] l where
  le _ _ := Int.le_refl _
  mem_iff t d n := by
    simp only [List.not_mem_nil, false_iff]
    omega
  inside _ h := nomatch h
  nodup := List.nodup_nil

/-- The next channel is new, and there is one as long as the capacity is not reached. -/
theorem Hands.allocate (h : l₀.Hands wires l) (halloc : l.allocate? t d = some (n, l')) :
    l₀.Hands (wires ++ [⟨t, d.channel n⟩]) l' := by
  rw [allocate?] at halloc
  split at halloc
  · cases halloc
  · rename_i hcapacity
    simp only [Option.some.injEq, Prod.mk.injEq] at halloc
    obtain ⟨rfl, rfl⟩ := halloc
    have hnext : ∀ u e, (l.set t d (l.next t d + 1)).next u e =
        if u = t ∧ e = d then l.next t d + 1 else l.next u e := fun _ _ => rfl
    refine ⟨fun u e => ?_, fun u e m => ?_, fun e he => ?_, ?_⟩
    · have := h.le u e
      rw [hnext]
      split
      · rename_i hue
        obtain ⟨rfl, rfl⟩ := hue
        omega
      · exact this
    · have := h.le u e
      rw [List.mem_append, List.mem_singleton, h.mem_iff, Endpoint.mk.injEq, Direction.channel_inj,
        hnext]
      split
      · rename_i hue
        obtain ⟨rfl, rfl⟩ := hue
        simp only [true_and]
        omega
      · rename_i hue
        have : ¬(u = t ∧ e = d ∧ m = l.next t d) := fun hm => hue ⟨hm.1, hm.2.1⟩
        simp only [this, or_false]
    · rcases List.mem_append.1 he with he | he
      · exact h.inside e he
      · rw [List.mem_singleton.1 he]
        exact ⟨d, _, rfl, by omega⟩
    · refine List.nodup_append.2 ⟨h.nodup, List.nodup_singleton _, fun e he e' he' => ?_⟩
      rintro rfl
      rw [List.mem_singleton.1 he', h.mem_iff] at he
      omega

/-- There is no next channel when the capacity is reached. -/
theorem capacity_le_of_allocate? (h : l.allocate? t d = none) : d.capacity ≤ l.next t d := by
  rw [allocate?] at h
  split at h
  · assumption
  · cases h

end ChannelLedger

/-- The ledger of a device is right behind the connections that leave its tiles. -/
theorem channelsOf_behind (p : Program) (device : OpId) :
    (p.channelsOf device).Behind (p.Drives device "aie.connect") := by
  refine (ChannelLedger.behind_empty.foldl (fun box t d n => p.switchboxTile? box = some t ∧
    ∃ id ∈ p.findIn box "aie.connect", (p.op id).outgoing? = some (d, n))
    (fun {l used} box h => ?_) _).congr fun t d n => by simp [Program.Drives]
  rcases htile : p.switchboxTile? box with _ | tile
  · exact h.congr fun t d n => by simp
  refine (h.foldl (fun id t d n => tile = t ∧ (p.op id).outgoing? = some (d, n))
    (fun {l used} id h => ?_) _).congr fun t d n => by simp [and_left_comm]
  rcases (p.op id).outgoing? with _ | ⟨direction, channel⟩
  · exact h.congr fun t d n => by simp
  · exact (h.occupy tile direction channel).congr fun t d n => by simp [eq_comm]

/-! ### Circuits -/

/-- Whether a connection leaves its tile on the side on which the tile of another one lies, and the
other one starts on the opposite side, on the same channel. -/
def Connection.Meets (a b : Connection) : Prop :=
  ∃ n, a.output = (Direction.between a.tile b.tile).channel n ∧
    b.input = (Direction.between a.tile b.tile).opposite.channel n

/-- A flow, the ends it is read with, and the connections it becomes. -/
structure Circuit where
  flow : OpId
  source : Endpoint
  destination : Endpoint
  connections : List Connection

namespace Circuit

/-- The tiles between the ends of a circuit. -/
def path (c : Circuit) : List Tile :=
  c.source.tile.pathTo c.destination.tile

/-- The connections of a circuit that lead to a neighbour: all but the last one. -/
def hops (c : Circuit) : List Connection :=
  c.connections.dropLast

/-- Whether the connections of a circuit lead from its source to its destination, one to the next
along the path. -/
structure Joins (c : Circuit) : Prop where
  tiles : c.connections.map Connection.tile = c.path
  first : c.connections.head?.map Connection.start = some c.source
  last : c.connections.getLast?.map Connection.finish = some c.destination
  /-- Each connection leaves its tile on the side of the next one, which is entered from the
  opposite side, on the same channel. -/
  sides : c.connections.IsChain Connection.Meets
  /-- If the destination is in reach, these are neighbours, so that a stream goes on from each
  connection to the next. -/
  next : c.source.tile.InReach c.destination.tile →
    c.connections.IsChain fun a b => a.next? = some b.start

end Circuit

/-- The wires that some circuits take. -/
def hopWires (circuits : List Circuit) : List Endpoint :=
  (circuits.flatMap Circuit.hops).map Connection.finish

section Circuits

variable {l l' l₀ : ChannelLedger} {wires : List Endpoint} {input output : Channel} {t u : Tile}
  {path : List Tile}

/-- The connections of a circuit lead along its path. -/
theorem circuit?_joins (h : circuit? output l input path = some (cs, l')) :
    cs.map Connection.tile = path ∧
      cs.head?.map Connection.start = path.head?.map (⟨·, input⟩) ∧
      cs.getLast?.map Connection.finish = path.getLast?.map (⟨·, output⟩) ∧
      cs.IsChain Connection.Meets := by
  induction path generalizing l input cs with
  | nil =>
      rw [circuit?, Option.some.injEq, Prod.mk.injEq] at h
      obtain ⟨rfl, -⟩ := h
      exact ⟨rfl, rfl, rfl, .nil⟩
  | cons t path ih =>
      cases path with
      | nil =>
          rw [circuit?, Option.some.injEq, Prod.mk.injEq] at h
          obtain ⟨rfl, rfl⟩ := h
          exact ⟨rfl, rfl, rfl, .singleton _⟩
      | cons u rest =>
          obtain ⟨n, l₁, cs₁, -, hrest, rfl⟩ := circuit?_cons h
          obtain ⟨htiles, hfirst, hlast, hsides⟩ := ih hrest
          obtain ⟨c, cs₂, rfl⟩ : ∃ c cs₂, cs₁ = c :: cs₂ := by
            cases cs₁ with
            | nil => cases hfirst
            | cons c cs₂ => exact ⟨c, cs₂, rfl⟩
          obtain ⟨rfl, hinput⟩ : c.tile = u ∧ c.input =
            (Direction.between t u).opposite.channel n := by
            simpa [Connection.start] using hfirst
          exact ⟨by rw [List.map_cons, htiles], rfl, by rwa [List.getLast?_cons_cons,
            List.getLast?_cons_cons], .cons_cons ⟨n, rfl, hinput⟩ hsides⟩

/-- Between neighbours a stream goes on from each connection to the next. -/
theorem Connection.Meets.next? {a b : Connection} (h : a.Meets b)
    (hstep : b.tile = (Direction.between a.tile b.tile).step a.tile) : a.next? = some b.start := by
  obtain ⟨n, houtput, hinput⟩ := h
  rw [Connection.next?, houtput, Connection.start, hinput]
  simp [Direction.channel, ← hstep]

/-- Along a path of neighbours, each connection leads to the next. -/
theorem isChain_next? (hpath : IsPath t u path) (htiles : cs.map Connection.tile = path)
    (hsides : cs.IsChain Connection.Meets) : cs.IsChain fun a b => a.next? = some b.start := by
  have hsteps : cs.IsChain fun a b => b.tile = (Direction.between a.tile b.tile).step a.tile :=
    (List.isChain_map Connection.tile).1 (htiles ▸ hpath.isChain)
  rw [List.isChain_iff_forall_rel_of_append_cons_cons] at hsides hsteps ⊢
  exact fun a b before after hsplit => (hsides hsplit).next? (hsteps hsplit)

/-- The hops of a circuit take the channels that the ledger hands out. -/
theorem circuit?_hands (hl : l₀.Hands wires l) (h : circuit? output l input path = some (cs, l')) :
    l₀.Hands (wires ++ cs.dropLast.map Connection.finish) l' := by
  induction path generalizing wires l input cs with
  | nil =>
      rw [circuit?, Option.some.injEq, Prod.mk.injEq] at h
      obtain ⟨rfl, rfl⟩ := h
      simpa using hl
  | cons t path ih =>
      cases path with
      | nil =>
          rw [circuit?, Option.some.injEq, Prod.mk.injEq] at h
          obtain ⟨rfl, rfl⟩ := h
          simpa using hl
      | cons u rest =>
          obtain ⟨n, l₁, cs₁, halloc, hrest, rfl⟩ := circuit?_cons h
          have hcs : cs₁ ≠ [] := by
            rintro rfl
            cases (circuit?_joins hrest).2.1
          have := ih (hl.allocate halloc) hrest
          rw [List.append_assoc] at this
          rw [List.dropLast_cons_of_ne_nil hcs, List.map_cons]
          exact this

end Circuits

/-! ### What the router does -/

/-- What the router does along a path: it puts one connection after the other into the switchbox
that it finds for the tile, or creates. -/
inductive Program.Lays (device : OpId) (p : Program) : List Connection → Program → Prop
  | refl : Lays device p [] p
  | connect {cs : List Connection} {c : Connection} {r s : Program} {box : OpId}
    (h : Lays device p cs r) (hbox : runOn (switchboxFor device c.tile) r = (.ok box, s)) :
    Lays device p (cs ++ [c]) (s.append (some box) (connection "aie.connect" c.input c.output)).2

/-- What the router does: it reads the ends of one flow after the other, lays a circuit and erases
the flow. -/
inductive Program.Carries (device : OpId) (p : Program) : List Circuit → Program → Prop
  | start : Carries device p [] p
  | route {done : List Circuit} {c : Circuit} {r s : Program} (h : Carries device p done r)
    (hflow : c.flow ∈ p.findIn device "aie.flow")
    (hsource : r.endpoint? (r.op c.flow) 0 = some c.source)
    (hdestination : r.endpoint? (r.op c.flow) 3 = some c.destination)
    (hlays : r.Lays device c.connections s) : Carries device p (done ++ [c]) (s.erase c.flow)

/-- Two lists of connections in a row are laid as one. -/
theorem Program.Lays.trans (h : p.Lays device cs q) (h' : q.Lays device cs' r) :
    p.Lays device (cs ++ cs') r := by
  induction h' with
  | refl => rwa [List.append_nil]
  | connect _ hbox ih =>
      rw [← List.append_assoc]
      exact ih.connect hbox

/-- Tiles, switchboxes and connections are created. -/
def EditRule.laying : EditRule where
  creates _ _ op := op.name ∈ ["aie.tile", "aie.switchbox", "aie.connect"]
  changes _ _ _ := False
  erases _ _ := False

/-- Flows are erased, and tiles, switchboxes and connections are created. -/
def EditRule.wiring : EditRule :=
  { laying with erases := fun p id => (p.op id).is "aie.flow" = true }

/-- Wiring leaves no flow. -/
theorem EditRule.wiring_dissolves : EditRule.wiring.Dissolves "aie.flow" where
  creates p parent op hop := Operation.not_is_of_mem hop (by decide)
  changes _ _ _ hop := hop.elim
  erases _ _ hop := hop

/-- Whether an operation is a switchbox below a device on a tile: its operand is the value of that
tile. -/
structure Program.BoxOn (p : Program) (device box : OpId) (tile : Tile) : Prop where
  inside : box ∈ p.findIn device "aie.switchbox"
  placed : ∃ value, (p.op box).operandValue? 0 = some value ∧ ∃ id ∈ p.walk,
    (p.op id).result = some value ∧ (p.op id).is "aie.tile" = true ∧ (p.op id).tile? = some tile

/-- The switchbox into which a connection is put is one below the device, on the tile of the
connection, be it found or new. -/
theorem switchboxFor_boxOn {tile : Tile} {box : OpId} (hp : p.Sound) (hdevice : device ∈ p.walk)
    (h : runOn (switchboxFor device tile) p = (.ok box, q)) : q.BoxOn device box tile := by
  rw [switchboxFor, get_bind_ok] at h
  split at h
  · rename_i found hfound
    obtain ⟨rfl, rfl⟩ := pure_ok.1 h
    have htile : p.switchboxTile? found = some tile := by simpa using List.find?_some hfound
    obtain ⟨value, hvalue, hplace⟩ := Option.bind_eq_some_iff.1 htile
    obtain ⟨id, hdef, hname, hid⟩ := Program.tileOf?_eq_some.1 hplace
    obtain ⟨hwalk, hresult⟩ := Program.mem_walk_of_definingOp? hdef
    exact ⟨List.mem_of_find?_eq_some hfound, value, hvalue, id, hwalk, hresult, hname, hid⟩
  · obtain ⟨value, r, hvalue, h⟩ := bind_ok.1 h
    have hr : p.Edits .laying r := tileValue_edits (fun op hname _ => by
      simp [EditRule.laying, beq_iff_eq.1 hname]) hvalue
    obtain ⟨id, hid, hresult, hname, htile⟩ := tileValue_isTile hp hdevice hvalue
    have hdevice := hr.mem_walk (fun _ _ hop => hop) hp hdevice
    rw [runOn_append, Prod.mk.injEq, Except.ok.injEq] at h
    obtain ⟨rfl, rfl⟩ := h
    have hadds := Program.adds_insertAt (hr.sound hp).toWellFormed hdevice
      (r.children (some device)).length
      { name := "aie.switchbox", operands := [.value value], hasRegion := true }
    have hold := hadds.old id hid
    rw [Program.append, Program.fst_insertAt]
    refine ⟨List.mem_filter.2 ⟨(hadds.walkIn device hdevice _).2 (.inr ⟨.inl rfl, rfl⟩), ?_⟩, value,
      ?_,
      id, (hadds.walk id).2 (.inr hid), ?_, ?_, ?_⟩
    · rw [hadds.new]
      rfl
    · rw [hadds.new]
      rfl
    · rw [hold.result, hresult]
    · rw [hold.is, hname]
    · rw [← htile, Operation.tile?, Operation.operandInt?, Operation.operandInt?, hold.operands]
      rfl

/-- Laying connections creates tiles, switchboxes and connections only. -/
theorem Program.Lays.edits (h : p.Lays device cs q) : p.Edits .laying q := by
  induction h with
  | refl => exact .refl
  | connect _ hbox ih =>
      refine ih.trans (.trans (switchboxFor_edits (fun op hname _ => ?_)
        (fun _ _ op _ hname => ?_) hbox) (append_edits rfl ?_ (fresh_of_none rfl)))
      · simp [EditRule.laying, beq_iff_eq.1 hname]
      · simp [EditRule.laying, beq_iff_eq.1 hname]
      · simp [EditRule.laying, connection]

/-- What the router does are edits, after which the device is still there, and no flow that has been
routed. -/
theorem Program.Carries.edits {circuits : List Circuit} (hp : p.Sound) (hdevice : device ∈ p.walk)
    (h : p.Carries device circuits q) : p.Edits .wiring q ∧ device ∈ q.walk ∧
      ∀ c ∈ circuits, c.flow < p.slots.size ∧ c.flow ∉ q.walk := by
  induction h with
  | start => exact ⟨.refl, hdevice, fun _ hc => nomatch hc⟩
  | @route done c r s _ hflow _ _ hlays ih =>
      obtain ⟨hr, hdevicer, hgone⟩ := ih
      obtain ⟨hin, hname⟩ := List.mem_filter.1 hflow
      have hs : p.Edits .wiring s := hr.trans
        (hlays.edits.mono (fun _ _ _ hop => hop) (fun _ _ _ hop => hop) fun _ _ hop => hop.elim)
      have hev := hs.evolves hp
      have hlt := hp.lt_size_of_walkIn hin
      have hflows : (s.op c.flow).is "aie.flow" = true :=
        ((hs.sameHeader hp (fun _ _ _ hop => hop) hlt).is _).trans hname
      have herase : s.Edits .wiring (s.erase c.flow) :=
        .single (.erase _ (Nat.lt_of_lt_of_le hlt hev.size) hflows)
      refine ⟨hs.trans herase, hev.mem_walk_erase hp hdevice
        (hlays.edits.mem_walk (fun _ _ hop => hop) (hr.sound hp) hdevicer) hin, fun c' hc' => ?_⟩
      rcases List.mem_append.1 hc' with hc' | hc'
      · obtain ⟨hlt', hnot⟩ := hgone c' hc'
        have hltr := Nat.lt_of_lt_of_le hlt' (hr.size_le hp)
        have hnots := hlays.edits.notMem_walk (hr.sound hp) hltr hnot
        exact ⟨hlt', herase.notMem_walk hev.sound (Nat.lt_of_lt_of_le hlt' hev.size) hnots⟩
      · rw [List.mem_singleton.1 hc']
        exact ⟨hlt, fun hmem => ((Program.mem_walk_erase hev.sound).1 hmem).2.1 rfl⟩

/-- The router lays the connections of a circuit. -/
theorem layCircuit_lays {l l' : ChannelLedger} {input output : Channel} {path : List Tile}
    (h : runOn (layCircuit device output l input path) p = (.ok l', q)) :
    ∃ cs, circuit? output l input path = some (cs, l') ∧ p.Lays device cs q := by
  induction path generalizing p l input with
  | nil =>
      rw [layCircuit] at h
      obtain ⟨rfl, rfl⟩ := pure_ok.1 h
      exact ⟨[], rfl, .refl⟩
  | cons tile path ih =>
      cases path with
      | nil =>
          rw [layCircuit] at h
          obtain ⟨box, r, hbox, h⟩ := bind_ok.1 h
          obtain ⟨_, s, hconnect, h⟩ := bind_ok.1 h
          rw [runOn_append, Prod.mk.injEq] at hconnect
          obtain ⟨-, rfl⟩ := hconnect
          obtain ⟨rfl, rfl⟩ := pure_ok.1 h
          exact ⟨_, rfl, .connect (c := ⟨tile, input, output⟩) .refl hbox⟩
      | cons next rest =>
          rw [layCircuit] at h
          dsimp only at h
          obtain ⟨⟨channel, l₁⟩, halloc, h⟩ := orFail_bind_ok.1 h
          dsimp only at h
          obtain ⟨box, r, hbox, h⟩ := bind_ok.1 h
          obtain ⟨_, s, hconnect, h⟩ := bind_ok.1 h
          rw [runOn_append, Prod.mk.injEq] at hconnect
          obtain ⟨-, rfl⟩ := hconnect
          obtain ⟨cs, hcs, hq⟩ := ih h
          refine ⟨_, ?_, (Program.Lays.connect
            (c := ⟨tile, input, (Direction.between tile next).channel channel⟩) .refl hbox).trans
              hq⟩
          rw [circuit?, halloc]
          dsimp only
          rw [Direction.channel, hcs]
          rfl

/-- Finding or creating a switchbox never fails. -/
theorem switchboxFor_failsOnly {E : StageError → Prop} (device : OpId) (tile : Tile) :
    FailsOnly E (switchboxFor device tile) := by
  refine failsOnly_get.bind fun p => ?_
  split
  · exact failsOnly_pure _
  · refine FailsOnly.bind (failsOnly_get.bind fun p => ?_) fun _ _ _ _ h => nomatch h
    split
    · exact failsOnly_pure _
    · exact FailsOnly.bind (fun _ _ _ h => nomatch h) fun _ => failsOnly_pure _

/-- The router gives up on a path when there is no next channel, with the hops before laid. -/
theorem layCircuit_error {l l₀ : ChannelLedger} {wires : List Endpoint} {input output : Channel}
    {path : List Tile} {e : StageError} (hl : l₀.Hands wires l)
    (h : runOn (layCircuit device output l input path) p = (.error e, q)) :
    ∃ cs l' t d, p.Lays device cs q ∧ l₀.Hands (wires ++ cs.map Connection.finish) l' ∧
      l'.allocate? t d = none ∧ e = .noFreeChannel d.name t := by
  induction path generalizing p wires l input with
  | nil => cases h
  | cons tile path ih =>
      cases path with
      | nil =>
          -- The last tile takes no channel, and a switchbox is always found or made.
          rw [layCircuit] at h
          rcases bind_error.1 h with h | ⟨box, r, -, h⟩
          · exact (switchboxFor_failsOnly (E := fun _ => False) device tile _ _ _ h).elim
          · rcases bind_error.1 h with h | ⟨_, _, _, h⟩ <;> cases h
      | cons next rest =>
          rw [layCircuit] at h
          dsimp only at h
          rcases halloc : l.allocate? tile (.between tile next) with _ | ⟨channel, l₁⟩
          · rw [halloc] at h
            cases h
            exact ⟨[], l, tile, .between tile next, .refl, by simpa using hl, halloc, rfl⟩
          rcases bind_error.1 h with h | ⟨_, _, hrun, h⟩
          · rw [halloc] at h
            cases h
          obtain ⟨heq, rfl⟩ := orFail_ok.1 hrun
          rw [halloc] at heq
          cases heq
          dsimp only at h
          rcases bind_error.1 h with h | ⟨box, r, hbox, h⟩
          · exact (switchboxFor_failsOnly (E := fun _ => False) device tile _ _ _ h).elim
          rcases bind_error.1 h with h | ⟨_, s, hconnect, h⟩
          · cases h
          rw [runOn_append, Prod.mk.injEq] at hconnect
          obtain ⟨-, rfl⟩ := hconnect
          obtain ⟨cs, l', t, d, hq, hl', hnone, rfl⟩ := ih (hl.allocate halloc) h
          have hc := Program.Lays.connect
            (c := ⟨tile, input, (Direction.between tile next).channel channel⟩) .refl hbox
          refine ⟨_, l', t, d, hc.trans hq, ?_, hnone, rfl⟩
          rw [List.append_assoc] at hl'
          exact hl'

/-! ### Flows -/

/-- The model of a device is read off its header. -/
theorem modelOf_of_sameHeader (h : (p.op device).SameHeader (q.op device)) :
    q.modelOf device = p.modelOf device := by
  rw [Program.modelOf, Program.modelOf, Operation.operandText?, h.operands]
  rfl

/-- The sizes of arrays are in range. -/
theorem DeviceModel.fits_lookup (name : String) :
    Integer.Fits (lookup name).columns ∧ Integer.Fits (lookup name).rows := by
  unfold lookup
  split <;> simp only [Integer.Fits] <;> omega

/-- Between tiles of an array there are only tiles of it. The tiles of a bounded array are in reach
of each other, and an array without bounds has all tiles, those of a way around included. -/
theorem contains_of_mem_pathTo {a b t : Tile} (ha : (p.modelOf device).contains a = true)
    (hb : (p.modelOf device).contains b = true) (ht : t ∈ a.pathTo b) :
    (p.modelOf device).contains t = true := by
  obtain ⟨hcolumns, hrows⟩ : Integer.Fits (p.modelOf device).columns ∧
      Integer.Fits (p.modelOf device).rows := DeviceModel.fits_lookup _
  simp only [DeviceModel.contains, Bool.or_eq_true, Bool.and_eq_true, decide_eq_true_eq] at ha hb ⊢
  rcases ha with ha | ha
  · exact .inl ha
  rcases hb with hb | hb
  · exact .inl hb
  simp only [Integer.Fits] at hcolumns hrows
  have hreach : a.InReach b := by
    constructor <;> simp only [Integer.Fits] <;> omega
  have := Tile.mem_pathTo hreach ht
  exact .inr (by omega)

/-- Some flows of a device have been routed. -/
structure Program.Wired (p : Program) (device : OpId) (flows : List OpId) (circuits : List Circuit)
    (l : ChannelLedger) (q : Program) : Prop where
  flows : circuits.map Circuit.flow = flows
  carries : p.Carries device circuits q
  hands : (p.channelsOf device).Hands (hopWires circuits) l
  joins : ∀ c ∈ circuits, c.Joins
  inside : ∀ c ∈ circuits, ∀ t ∈ c.path, (p.modelOf device).contains t = true

/-- The wires of one more circuit follow those of the others. -/
theorem hopWires_append (circuits : List Circuit) (c : Circuit) :
    hopWires (circuits ++ [c]) = hopWires circuits ++ c.hops.map Connection.finish := by
  simp [hopWires]

/-- One more flow is routed. -/
theorem Program.Wired.step {done : List OpId} {circuits : List Circuit} {l l' : ChannelLedger}
    {flow : OpId} (h : p.Wired device done circuits l r) (hp : p.Sound) (hdevice : device ∈ p.walk)
    (hflow : flow ∈ p.findIn device "aie.flow")
    (hrun : runOn (routeCircuitFlow device l flow) r = (.ok l', q)) :
    ∃ c, p.Wired device (done ++ [flow]) (circuits ++ [c]) l' q := by
  have hmodel := modelOf_of_sameHeader ((h.carries.edits hp hdevice).1.sameHeader hp
    (fun _ _ _ hop => hop) (hp.created device hdevice))
  rw [routeCircuitFlow, get_bind_ok] at hrun
  dsimp only at hrun
  obtain ⟨source, r', hread, hrun⟩ := bind_ok.1 hrun
  obtain ⟨hsource, rfl⟩ := readEndpoint_ok hread
  obtain ⟨destination, r', hread', hrun⟩ := bind_ok.1 hrun
  obtain ⟨hdestination, rfl⟩ := readEndpoint_ok hread'
  obtain ⟨hin, hrun⟩ := ensure_bind_ok.1 hrun
  obtain ⟨hin', hrun⟩ := ensure_bind_ok.1 hrun
  obtain ⟨l₁, s, hlay, hrun⟩ := bind_ok.1 hrun
  obtain ⟨_, t, herase, hrun⟩ := bind_ok.1 hrun
  rw [runOn_erase, Prod.mk.injEq] at herase
  obtain ⟨-, rfl⟩ := herase
  obtain ⟨rfl, rfl⟩ := pure_ok.1 hrun
  obtain ⟨cs, hcs, hlays⟩ := layCircuit_lays hlay
  obtain ⟨htiles, hfirst, hlast, hsides⟩ := circuit?_joins hcs
  rw [Tile.getLast?_pathTo] at hlast
  rw [hmodel] at hin hin'
  refine ⟨⟨flow, source, destination, cs⟩, by simp [h.flows],
    h.carries.route hflow hsource hdestination hlays, ?_, ?_, ?_⟩
  · rw [hopWires_append]
    exact circuit?_hands h.hands hcs
  · rw [List.forall_mem_append, List.forall_mem_singleton]
    exact ⟨h.joins, htiles, hfirst, hlast, hsides, fun hreach =>
      isChain_next? (Tile.pathTo_isPath hreach) htiles hsides⟩
  · rw [List.forall_mem_append, List.forall_mem_singleton]
    exact ⟨h.inside, fun t ht => contains_of_mem_pathTo hin hin' ht⟩

/-- No flow has been routed yet. -/
theorem Program.Wired.start (p : Program) (device : OpId) :
    p.Wired device [] [] (p.channelsOf device) p :=
  ⟨rfl, .start, .refl _, by simp, by simp⟩

/-- No wire that is handed out belongs to a connection of before. -/
theorem hands_spares {l : ChannelLedger} {wires : List Endpoint}
    (h : (p.channelsOf device).Hands wires l) {e : Endpoint} (he : e ∈ wires) :
    ∃ d : Direction, e.channel.bundle = d.name ∧ 0 ≤ e.channel.index ∧
      e.channel.index < d.capacity ∧ ¬ p.Drives device "aie.connect" e.tile d e.channel.index := by
  have hbehind := channelsOf_behind p device
  obtain ⟨d, n, hchannel, hcapacity⟩ := h.inside e he
  obtain ⟨t, c⟩ := e
  cases hchannel
  have hn := ((h.mem_iff t d n).1 he).1
  have hgreatest : n ≠ Integer.greatest := by
    have : d.capacity ≤ 6 := by cases d <;> decide
    simp only [Integer.greatest]
    omega
  exact ⟨d, rfl, Int.le_trans (hbehind.nonneg t d) hn, hcapacity, fun hused =>
    absurd hn (Int.not_le.2 (hbehind.used_lt t d n hused hgreatest))⟩

/-- **Hops take free channels.** When the flows of a device have been routed, none is left. The
connections of each lead along the path between its ends, inside of the array, and every one that
leads to a neighbour takes a channel in the range of its direction that no other one takes, and no
connection that was there before. -/
theorem routeCircuitFlows_channels (hp : p.Sound) (hdevice : device ∈ p.walk)
    (h : runOn (routeCircuitFlows device) p = (.ok (), q)) :
    q.findIn device "aie.flow" = [] ∧ ∃ circuits : List Circuit,
      circuits.map Circuit.flow = p.findIn device "aie.flow" ∧ p.Carries device circuits q ∧
      (∀ c ∈ circuits, c.Joins ∧ ∀ t ∈ c.path, (p.modelOf device).contains t = true) ∧
      (∀ e ∈ hopWires circuits, ∃ d : Direction, e.channel.bundle = d.name ∧
        0 ≤ e.channel.index ∧ e.channel.index < d.capacity ∧
          ¬ p.Drives device "aie.connect" e.tile d e.channel.index) ∧
      (hopWires circuits).Nodup := by
  rw [routeCircuitFlows, get_bind_ok] at h
  obtain ⟨l, r, hloop, h⟩ := bind_ok.1 h
  obtain ⟨-, rfl⟩ := pure_ok.1 h
  obtain ⟨circuits, hwired⟩ := foldlM_prefix
    (I := fun done l r => ∃ circuits, p.Wired device done circuits l r)
    (hp.toWellFormed.nodup_findIn hdevice _) hloop ⟨[], .start p device⟩
    fun flow hflow done _ l l' s t hs hrun => by
      obtain ⟨circuits, hs⟩ := hs
      obtain ⟨c, hc⟩ := hs.step hp hdevice hflow hrun
      exact ⟨circuits ++ [c], hc⟩
  refine ⟨?_, circuits, hwired.flows, hwired.carries, fun c hc => ⟨hwired.joins c hc,
    hwired.inside c hc⟩, fun e he => hands_spares hwired.hands he, hwired.hands.nodup⟩
  obtain ⟨hedits, hdeviceq, hgone⟩ := hwired.carries.edits hp hdevice
  have hnone := hedits.forall_not_is EditRule.wiring_dissolves.keeps hp hdeviceq
    fun flow hflow => by
    rw [← hwired.flows, List.mem_map] at hflow
    obtain ⟨c, hc, rfl⟩ := hflow
    exact (hgone c hc).2
  exact List.filter_eq_nil_iff.2 fun id hid => by simp [hnone id hid]

/-- A flow from a tile to one two steps above it, and a connection that leaves the first one there.
-/
def crossedProgram (channel : Int) : Program :=
  flowProgram (.cons { name := "aie.switchbox", operands := [.value "a"], hasRegion := true }
    (.single (connection "aie.connect" ⟨"DMA", 0⟩ (Direction.north.channel channel)) .nil)
    (.single (dmaFlow none "a" 0 "b" 1) .nil))

/-- The flow leaves its tile behind the connection. -/
theorem routeCircuitFlows_channels_behind : ∃ q circuits,
    runOn (routeCircuitFlows 0) (crossedProgram 2) = (.ok (), q) ∧
      circuits.map Circuit.flow = [5] ∧ (crossedProgram 2).Carries 0 circuits q ∧
      (crossedProgram 2).Drives 0 "aie.connect" ⟨0, 1⟩ .north 2 ∧
      (∀ e ∈ hopWires circuits, ∃ d : Direction, e.channel.bundle = d.name ∧
        0 ≤ e.channel.index ∧ e.channel.index < d.capacity ∧
          ¬ (crossedProgram 2).Drives 0 "aie.connect" e.tile d e.channel.index) := by
  have hok : (runOn (routeCircuitFlows 0) (crossedProgram 2)).1.isOk = true := by decide +kernel
  rcases h : runOn (routeCircuitFlows 0) (crossedProgram 2) with ⟨e | ⟨⟩, q⟩
  · rw [h] at hok
    cases hok
  obtain ⟨-, circuits, hflows, hcarries, -, hfree, -⟩ :=
    routeCircuitFlows_channels (Program.sound_ofForest _ _) (by decide +kernel) h
  exact ⟨q, circuits, rfl, hflows.trans (by decide +kernel), hcarries, by decide +kernel, hfree⟩

/-! ### Channels that run out -/

/-- Reading an endpoint fails for a malformed operand or a value that is no tile. -/
theorem readEndpoint_failsOnly {E : StageError → Prop}
    (hmalformed : ∀ name what, E (.malformed name what))
    (htile : ∀ value, E (.notATile value)) (op : Operation) (first : Nat) :
    FailsOnly E (readEndpoint op first) :=
  failsOnly_get.bind fun _ => (failsOnly_orFail _ (hmalformed _ _)).bind fun _ =>
    (failsOnly_orFail _ (htile _)).bind fun _ => (failsOnly_orFail _ (hmalformed _ _)).bind fun _ =>
      (failsOnly_orFail _ (hmalformed _ _)).bind fun _ => failsOnly_pure _

/-- For want of a channel the router gives up in the middle of a circuit. -/
theorem routeCircuitFlow_error {l : ChannelLedger} {flow : OpId} {e : StageError}
    (he : ∃ direction tile, e = .noFreeChannel direction tile)
    (h : runOn (routeCircuitFlow device l flow) p = (.error e, q)) :
    ∃ (source destination : Endpoint), p.endpoint? (p.op flow) 0 = some source ∧
      p.endpoint? (p.op flow) 3 = some destination ∧
      runOn (layCircuit device destination.channel l source.channel
        (source.tile.pathTo destination.tile)) p = (.error e, q) := by
  obtain ⟨direction, tile, rfl⟩ := he
  have hread : ∀ first, FailsOnly (· ≠ .noFreeChannel direction tile)
      (readEndpoint (p.op flow) first) :=
    readEndpoint_failsOnly (fun _ _ => by simp) (fun _ => by simp) (p.op flow)
  rw [routeCircuitFlow] at h
  rcases bind_error.1 h with h | ⟨_, _, hget, h⟩
  · cases h
  cases hget
  dsimp only at h
  rcases bind_error.1 h with h | ⟨source, r, hread0, h⟩
  · exact absurd rfl (hread 0 _ _ _ h)
  obtain ⟨hsource, rfl⟩ := readEndpoint_ok hread0
  rcases bind_error.1 h with h | ⟨destination, r, hread3, h⟩
  · exact absurd rfl (hread 3 _ _ _ h)
  obtain ⟨hdestination, rfl⟩ := readEndpoint_ok hread3
  have hcheck : ∀ tile', FailsOnly (· ≠ .noFreeChannel direction tile)
      (checkInside (p.modelOf device) tile') := fun tile' => failsOnly_ensure _ (by simp)
  rcases bind_error.1 h with h | ⟨_, r, hinside, h⟩
  · exact absurd rfl (hcheck _ _ _ _ h)
  obtain rfl := checkInside_ok hinside
  rcases bind_error.1 h with h | ⟨_, r, hinside, h⟩
  · exact absurd rfl (hcheck _ _ _ _ h)
  obtain rfl := checkInside_ok hinside
  rcases bind_error.1 h with h | ⟨l', r, hlay, h⟩
  · exact ⟨source, destination, hsource, hdestination, h⟩
  · rcases bind_error.1 h with h | ⟨_, _, _, h⟩ <;> cases h

/-- **Channels run out behind the last one in use.** When the router gives up for want of a channel,
every channel of the direction has been taken by a hop, or is at or below one that a connection of
the tile had before. -/
theorem routeCircuitFlows_exhausted (hp : p.Sound) (hdevice : device ∈ p.walk) {d : Direction}
    {tile : Tile}
    (h : runOn (routeCircuitFlows device) p = (.error (.noFreeChannel d.name tile), q)) :
    ∃ circuits r cs, (∃ flow rest,
        p.findIn device "aie.flow" = circuits.map Circuit.flow ++ flow :: rest) ∧
      p.Carries device circuits r ∧ r.Lays device cs q ∧
      ∀ n, 0 ≤ n → n < d.capacity →
        ⟨tile, d.channel n⟩ ∈ hopWires circuits ++ cs.map Connection.finish ∨
          ∃ m, n ≤ m ∧ p.Drives device "aie.connect" tile d m := by
  rw [routeCircuitFlows] at h
  rcases bind_error.1 h with h | ⟨_, _, hget, h⟩
  · cases h
  cases hget
  rcases bind_error.1 h with h | ⟨_, _, _, h⟩
  swap
  · cases h
  obtain ⟨done, flow, rest, l, r, hflows, ⟨circuits, hwired⟩, hrun⟩ := foldlM_error
    (I := fun done l r => ∃ circuits, p.Wired device done circuits l r) h ⟨[], .start p device⟩
    fun done flow rest hflows l l' s t hs hrun => by
      obtain ⟨circuits, hs⟩ := hs
      obtain ⟨c, hc⟩ := hs.step hp hdevice (by simp [hflows]) hrun
      exact ⟨circuits ++ [c], hc⟩
  obtain ⟨source, destination, -, -, hlay⟩ := routeCircuitFlow_error ⟨_, _, rfl⟩ hrun
  obtain ⟨cs, l', t, e, hlays, hhands, hnone, heq⟩ := layCircuit_error hwired.hands hlay
  obtain ⟨hname, rfl⟩ := StageError.noFreeChannel.inj heq
  obtain rfl := Direction.name_injective hname
  have hcapacity := ChannelLedger.capacity_le_of_allocate? hnone
  refine ⟨circuits, r, cs, ⟨flow, rest, by rw [hflows, hwired.flows]⟩, hwired.carries, hlays,
    fun n hn hlt => ?_⟩
  -- Below where the ledger started, the connections of before are to blame; above, the hops are.
  rcases Int.lt_or_le n ((p.channelsOf device).next tile d) with hseed | hseed
  · exact .inr ⟨_, by omega, (channelsOf_behind p device).last tile d (by omega)⟩
  · exact .inl ((hhands.mem_iff tile d n).2 ⟨hseed, by omega⟩)

/-- The connection is on the last channel, so there is none behind it. -/
theorem routeCircuitFlows_exhausted_behind : ∃ q circuits r cs,
    runOn (routeCircuitFlows 0) (crossedProgram 5) =
      (.error (.noFreeChannel Direction.north.name ⟨0, 1⟩), q) ∧
    (crossedProgram 5).Carries 0 circuits r ∧ r.Lays 0 cs q ∧ ∀ n, 0 ≤ n → n < 6 →
      ⟨⟨0, 1⟩, Direction.north.channel n⟩ ∈ hopWires circuits ++ cs.map Connection.finish ∨
        ∃ m, n ≤ m ∧ (crossedProgram 5).Drives 0 "aie.connect" ⟨0, 1⟩ .north m := by
  have hfail : (runOn (routeCircuitFlows 0) (crossedProgram 5)).1 =
      .error (.noFreeChannel Direction.north.name ⟨0, 1⟩) := by
    decide +kernel
  have h := Prod.ext_iff.2 ⟨hfail, rfl⟩
  obtain ⟨circuits, r, cs, -, hcarries, hlays, htaken⟩ :=
    routeCircuitFlows_exhausted (Program.sound_ofForest _ _) (by decide +kernel) h
  exact ⟨_, circuits, r, cs, h, hcarries, hlays, htaken⟩

/-- There is no next channel, and yet no connection leaves the tile on channel 0. -/
theorem routeCircuitFlows_exhausted_free :
    (runOn (routeCircuitFlows 0) (crossedProgram 5)).1 =
      .error (.noFreeChannel "North" ⟨0, 1⟩) ∧
    0 < Direction.north.capacity ∧
    ¬ (runOn (routeCircuitFlows 0) (crossedProgram 5)).2.Drives 0 "aie.connect" ⟨0, 1⟩ .north 0 ∧
    (runOn (routeCircuitFlows 0) (crossedProgram 5)).2 = crossedProgram 5 := by
  decide +kernel

end TileFlow
