import TileFlow.Proofs.Routing.Path
import TileFlow.Routing.Circuit

/-!
# Streams through connections

A stream takes every connection of a tile whose input is the channel at which it is, and goes on at
the neighbouring tile if the output is one of the four sides. A circuit is laid along a path so that
every step takes a channel which is new on its tile: what is laid before is not joined to it, and
what is laid adds the arrival at its end and no other.

## Main definitions

* `Connection`: an input of a tile joined to an output.
* `Traces`: the endpoints at which a stream arrives.
* `ChannelLedger.Covers`: a ledger that is behind all channels in use.
* `circuit?`: the connections of one circuit.

## Main results

* `circuit?_traces`: what a circuit adds to the arrivals.
* `route_traces`: what the circuit between two endpoints adds.
-/

namespace TileFlow

/-- An input of a tile that is joined to an output. -/
structure Connection where
  tile : Tile
  input : Channel
  output : Channel
  deriving DecidableEq, Repr

/-- Whether a channel is one of the four sides of its tile. -/
def Channel.isSide (c : Channel) : Bool :=
  (Direction.ofName? c.bundle).isSome

/-- The channel at one of the four sides. -/
def Direction.channel (d : Direction) (index : Int) : Channel :=
  ⟨d.name, index⟩

namespace Connection

/-- Where a stream enters a connection. -/
def start (c : Connection) : Endpoint := ⟨c.tile, c.input⟩

/-- Where a stream leaves a connection. -/
def finish (c : Connection) : Endpoint := ⟨c.tile, c.output⟩

/-- Where a stream goes on behind an output that leads to a neighbour: at the opposite side of the
neighbour, on the same channel. -/
def next? (c : Connection) : Option Endpoint :=
  (Direction.ofName? c.output.bundle).map fun d =>
    ⟨d.step c.tile, d.opposite.channel c.output.index⟩

end Connection

/-- Where a stream that starts at an endpoint arrives. -/
inductive Traces (K : Connection → Prop) : Endpoint → Endpoint → Prop
  | arrive {c : Connection} (hc : K c) (hnext : c.next? = none) : Traces K c.start c.finish
  | hop {c : Connection} {e d : Endpoint} (hc : K c) (hnext : c.next? = some e) (h : Traces K e d) :
    Traces K c.start d

/-- Where a stream that starts at an endpoint comes by. -/
inductive Leads (K : Connection → Prop) : Endpoint → Endpoint → Prop
  | refl (e : Endpoint) : Leads K e e
  | hop {c : Connection} {e d : Endpoint} (hc : K c) (hnext : c.next? = some e) (h : Leads K e d) :
    Leads K c.start d

section Streams

variable {K K' : Connection → Prop} {c : Connection} {s d e : Endpoint}

/-- What leads somewhere by few connections does so by more. -/
theorem Leads.mono (h : Leads K s d) (hK : ∀ c, K c → K' c) : Leads K' s d := by
  induction h with
  | refl e => exact .refl e
  | hop hc hnext _ ih => exact .hop (hK _ hc) hnext ih

/-- One more connection extends the way. -/
theorem Leads.append_hop (h : Leads K s c.start) (hc : K c) (hnext : c.next? = some e) :
    Leads K s e := by
  generalize hd : c.start = d at h
  induction h with
  | refl => exact hd ▸ .hop hc hnext (.refl e)
  | hop hc' hnext' _ ih => exact .hop hc' hnext' (ih hd)

/-- A stream comes by an endpoint where it does not start behind some connection. -/
theorem Leads.eq_or_next (h : Leads K s d) : s = d ∨ ∃ c, K c ∧ Leads K s c.start ∧
    c.next? = some d := by
  induction h with
  | refl => exact .inl rfl
  | @hop c e d hc hnext _ ih =>
      right
      rcases ih with rfl | ⟨c', hc', hlead, hnext'⟩
      · exact ⟨c, hc, .refl _, hnext⟩
      · exact ⟨c', hc', .hop hc hnext hlead, hnext'⟩

/-- A stream arrives behind the last of the connections that it takes. -/
theorem traces_iff : Traces K s d ↔
    ∃ c, K c ∧ c.next? = none ∧ Leads K s c.start ∧ d = c.finish := by
  constructor
  · intro h
    induction h with
    | @arrive c hc hnext => exact ⟨c, hc, hnext, .refl _, rfl⟩
    | hop hc hnext _ ih =>
        obtain ⟨c', hc', hlast, hlead, hd⟩ := ih
        exact ⟨c', hc', hlast, .hop hc hnext hlead, hd⟩
  · rintro ⟨c, hc, hlast, hlead, rfl⟩
    generalize hm : c.start = m at hlead
    induction hlead with
    | refl => exact hm ▸ .arrive hc hlast
    | hop hc' hnext _ ih => exact .hop hc' hnext (ih hm)

/-! ### One more connection -/

/-- The connections with one more. -/
def withConnection (K : Connection → Prop) (c : Connection) : Connection → Prop :=
  fun c' => K c' ∨ c' = c

/-- A connection to an endpoint behind which there is none lets streams come by that endpoint. -/
theorem leads_withConnection_iff (hnext : c.next? = some e)
    (hdead : ∀ c', withConnection K c c' → c'.start ≠ e) :
    Leads (withConnection K c) s d ↔ Leads K s d ∨ (Leads K s c.start ∧ d = e) := by
  constructor
  · intro h
    induction h with
    | refl e => exact .inl (.refl e)
    | @hop c' e' d hc' hnext' h ih =>
        rcases hc' with hc' | rfl
        · rcases ih with ih | ⟨ih, hd⟩
          · exact .inl (.hop hc' hnext' ih)
          · exact .inr ⟨.hop hc' hnext' ih, hd⟩
        · rw [hnext] at hnext'
          cases hnext'
          refine .inr ⟨.refl _, ?_⟩
          cases h with
          | refl => rfl
          | @hop c'' _ _ hc'' => exact absurd rfl (hdead c'' hc'')
  · rintro (h | ⟨h, rfl⟩)
    · exact h.mono fun _ => .inl
    · exact (h.mono fun _ => .inl).append_hop (.inr rfl) hnext

/-- A connection to an endpoint behind which there is none changes no arrival. -/
theorem traces_withConnection_of_dead (hnext : c.next? = some e)
    (hdead : ∀ c', withConnection K c c' → c'.start ≠ e) :
    Traces (withConnection K c) s d ↔ Traces K s d := by
  rw [traces_iff, traces_iff]
  constructor
  · rintro ⟨c', hc', hlast, hlead, hd⟩
    rcases (leads_withConnection_iff hnext hdead).1 hlead with hlead | ⟨-, hstart⟩
    · rcases hc' with hc' | rfl
      · exact ⟨c', hc', hlast, hlead, hd⟩
      · rw [hnext] at hlast
        cases hlast
    · exact absurd hstart (hdead c' hc')
  · rintro ⟨c', hc', hlast, hlead, hd⟩
    exact ⟨c', .inl hc', hlast, hlead.mono fun _ => .inl, hd⟩

/-- A connection that does not lead to a neighbour adds an arrival. -/
theorem traces_withConnection_of_last (hlast : c.next? = none) :
    Traces (withConnection K c) s d ↔ Traces K s d ∨ (Leads K s c.start ∧ d = c.finish) := by
  have hleads : ∀ {m}, Leads (withConnection K c) s m ↔ Leads K s m := by
    intro m
    constructor
    · intro h
      induction h with
      | refl e => exact .refl e
      | hop hc' hnext _ ih =>
          rcases hc' with hc' | rfl
          · exact .hop hc' hnext ih
          · rw [hlast] at hnext
            cases hnext
    · exact fun h => h.mono fun _ => .inl
  rw [traces_iff, traces_iff]
  constructor
  · rintro ⟨c', hc' | rfl, hlast', hlead, hd⟩
    · exact .inl ⟨c', hc', hlast', hleads.1 hlead, hd⟩
    · exact .inr ⟨hleads.1 hlead, hd⟩
  · rintro (⟨c', hc', hlast', hlead, hd⟩ | ⟨hlead, hd⟩)
    · exact ⟨c', .inl hc', hlast', hleads.2 hlead, hd⟩
    · exact ⟨c, .inr rfl, hlast, hleads.2 hlead, hd⟩

end Streams

/-! ### Ledgers -/

/-- Whether a ledger is behind all channels in use: the outgoing ones of each tile, and those of the
neighbours by which streams enter it. -/
structure ChannelLedger.Covers (l : ChannelLedger) (K : Connection → Prop) : Prop where
  output : ∀ c, K c → ∀ d, Direction.ofName? c.output.bundle = some d →
    c.output.index < l.next c.tile d
  input : ∀ c, K c → ∀ d, Direction.ofName? c.input.bundle = some d →
    c.input.index < l.next (d.step c.tile) d.opposite

/-- The channel that a step takes, with the ledger after it. -/
theorem ChannelLedger.allocate?_eq {l l' : ChannelLedger} {t : Tile} {d : Direction} {n : Int}
    (h : l.allocate? t d = some (n, l')) :
    n = l.next t d ∧ l'.next t d = n + 1 ∧ ∀ u e, l.next u e ≤ l'.next u e := by
  rw [allocate?] at h
  split at h
  · cases h
  · simp only [Option.some.injEq, Prod.mk.injEq] at h
    obtain ⟨rfl, rfl⟩ := h
    refine ⟨rfl, by simp [set], fun u e => ?_⟩
    simp only [set]
    split
    · rename_i hue
      rw [hue.1, hue.2]
      omega
    · exact Int.le_refl _

/-! ### Circuits -/

/-- The connections of a circuit that enters the first tile of a path at an input and leaves the
last one at an output, with the ledger after it. -/
def circuit? (output : Channel) :
    ChannelLedger → Channel → List Tile → Option (List Connection × ChannelLedger)
  | l, _, [] => some ([], l)
  | l, input, [tile] => some ([⟨tile, input, output⟩], l)
  | l, input, tile :: next :: rest =>
    match l.allocate? tile (.between tile next) with
    | none => none
    | some (channel, l) =>
      match circuit? output l ((Direction.between tile next).opposite.channel channel)
          (next :: rest) with
      | none => none
      | some (cs, l) => some (⟨tile, input, (Direction.between tile next).channel channel⟩ :: cs, l)

/-- The connections with some more. -/
def withConnections (K : Connection → Prop) (cs : List Connection) : Connection → Prop :=
  fun c => K c ∨ c ∈ cs

theorem withConnections_nil (K : Connection → Prop) : withConnections K [] = K := by
  funext c
  simp [withConnections]

theorem withConnections_cons (K : Connection → Prop) (c : Connection) (cs : List Connection) :
    withConnections K (c :: cs) = withConnections (withConnection K c) cs := by
  funext c'
  simp [withConnections, withConnection, or_assoc]

/-- Connections are added in order. -/
theorem withConnections_append (K : Connection → Prop) (cs cs' : List Connection) :
    withConnections (withConnections K cs) cs' = withConnections K (cs ++ cs') := by
  funext c
  simp [withConnections, or_assoc]

section Circuit

variable {K : Connection → Prop} {l l' : ChannelLedger} {t : Tile} {d : Direction} {n : Int}
  {input : Channel}

/-- From a channel towards a neighbour, the next tile is that neighbour. -/
theorem next?_side (t : Tile) (input : Channel) (d : Direction) (n : Int) :
    (⟨t, input, d.channel n⟩ : Connection).next? = some ⟨d.step t, d.opposite.channel n⟩ := by
  simp [Connection.next?, Direction.channel]

/-- No connection starts where the next free channel leads. -/
theorem ChannelLedger.Covers.dead (hl : l.Covers K) (hn : n = l.next t d) :
    ∀ c, withConnection K ⟨t, input, d.channel n⟩ c →
      c.start ≠ ⟨d.step t, d.opposite.channel n⟩ := by
  rintro c (hc | rfl) hstart
  · rw [Connection.start, Endpoint.mk.injEq] at hstart
    obtain ⟨htile, hinput⟩ := hstart
    have := hl.input c hc d.opposite (by rw [hinput]; exact Direction.ofName?_name _)
    rw [htile, hinput, Direction.opposite_step_step, Direction.opposite_opposite, ← hn] at this
    exact Int.lt_irrefl _ this
  · rw [Connection.start, Endpoint.mk.injEq] at hstart
    exact d.step_ne t hstart.1.symm

/-- No connection leads where the next free channel leads. -/
theorem ChannelLedger.Covers.unreached (hl : l.Covers K) (hn : n = l.next t d) {c : Connection}
    (hc : K c) : c.next? ≠ some ⟨d.step t, d.opposite.channel n⟩ := by
  intro hnext
  rw [Connection.next?, Option.map_eq_some_iff] at hnext
  obtain ⟨e, hname, he⟩ := hnext
  rw [Endpoint.mk.injEq, Direction.channel, Direction.channel, Channel.mk.injEq] at he
  obtain ⟨htile, hside, hindex⟩ := he
  obtain rfl : e = d := Direction.opposite_injective (Direction.name_injective hside)
  have := hl.output c hc e hname
  rw [Direction.step_injective htile, hindex, hn] at this
  exact Int.lt_irrefl _ this

/-- The last connection of a path uses no channel between tiles that was free. -/
theorem ChannelLedger.Covers.last (hl : l.Covers K) {output : Channel}
    (houtput : Direction.ofName? output.bundle = none)
    (hinput : ∀ e, Direction.ofName? input.bundle = some e →
      input.index < l.next (e.step t) e.opposite) :
    l.Covers (withConnection K ⟨t, input, output⟩) where
  output := by
    rintro c (hc | rfl) e he
    · exact hl.output c hc e he
    · rw [houtput] at he
      cases he
  input := by
    rintro c (hc | rfl) e he
    · exact hl.input c hc e he
    · exact hinput e he

/-- A step along a path keeps the ledger behind all channels in use. -/
theorem ChannelLedger.Covers.step (hl : l.Covers K)
    (hnext : l'.next t d = n + 1) (hmono : ∀ u e, l.next u e ≤ l'.next u e)
    (hinput : ∀ e, Direction.ofName? input.bundle = some e →
      input.index < l.next (e.step t) e.opposite) :
    l'.Covers (withConnection K ⟨t, input, d.channel n⟩) where
  output := by
    rintro c (hc | rfl) e he
    · exact Int.lt_of_lt_of_le (hl.output c hc e he) (hmono _ _)
    · obtain rfl : d = e := by simpa [Direction.channel] using he
      simp only [Direction.channel, hnext]
      omega
  input := by
    rintro c (hc | rfl) e he
    · exact Int.lt_of_lt_of_le (hl.input c hc e he) (hmono _ _)
    · exact Int.lt_of_lt_of_le (hinput e he) (hmono _ _)

/-- The circuit along a path takes a channel to the next tile, and goes on from there. -/
theorem circuit?_cons {output : Channel} {u : Tile} {rest : List Tile} {cs : List Connection}
    (h : circuit? output l input (t :: u :: rest) = some (cs, l')) :
    ∃ n l₁ cs₁, l.allocate? t (.between t u) = some (n, l₁) ∧
      circuit? output l₁ ((Direction.between t u).opposite.channel n) (u :: rest) = some (cs₁, l') ∧
      cs = ⟨t, input, (Direction.between t u).channel n⟩ :: cs₁ := by
  rw [circuit?] at h
  rcases halloc : l.allocate? t (.between t u) with _ | ⟨n, l₁⟩
  · simp [halloc] at h
  rw [halloc] at h
  dsimp only at h
  rcases hrest : circuit? output l₁ ((Direction.between t u).opposite.channel n) (u :: rest)
    with _ | ⟨cs₁, l₂⟩
  · simp [hrest] at h
  simp only [hrest, Option.some.injEq, Prod.mk.injEq] at h
  obtain ⟨rfl, rfl⟩ := h
  exact ⟨n, l₁, cs₁, rfl, hrest, rfl⟩

end Circuit

/-- A circuit lets the streams that come by its start arrive at its end, and changes no other
arrival of streams that do not start at a side of a tile. -/
theorem circuit?_traces {output : Channel} (houtput : output.isSide = false) {t u : Tile}
    {path : List Tile} (hpath : IsPath t u path) {K : Connection → Prop} {l l' : ChannelLedger}
    {input : Channel} {cs : List Connection} (hl : l.Covers K)
    (hinput : ∀ e, Direction.ofName? input.bundle = some e →
      input.index < l.next (e.step t) e.opposite)
    (h : circuit? output l input path = some (cs, l')) :
    l'.Covers (withConnections K cs) ∧ ∀ s d, s.channel.isSide = false →
      (Traces (withConnections K cs) s d ↔
        Traces K s d ∨ (Leads K s ⟨t, input⟩ ∧ d = ⟨u, output⟩)) := by
  have hnone : Direction.ofName? output.bundle = none := by
    simpa [Channel.isSide] using houtput
  induction hpath generalizing K l input cs with
  | single t =>
      rw [circuit?, Option.some.injEq, Prod.mk.injEq] at h
      obtain ⟨rfl, rfl⟩ := h
      have hlast : (⟨t, input, output⟩ : Connection).next? = none := by
        simp [Connection.next?, hnone]
      rw [withConnections_cons, withConnections_nil]
      exact ⟨hl.last hnone hinput, fun s d _ => traces_withConnection_of_last hlast⟩
  | @cons d t u path hpath ih =>
      obtain ⟨rest, rfl⟩ := hpath.eq_cons
      obtain ⟨n, l₁, cs₁, halloc, hrest, rfl⟩ := circuit?_cons h
      rw [Direction.between_step] at halloc hrest ⊢
      obtain ⟨hn, hnext, hmono⟩ := ChannelLedger.allocate?_eq halloc
      have hdead : ∀ c, withConnection K ⟨t, input, d.channel n⟩ c →
          c.start ≠ ⟨d.step t, d.opposite.channel n⟩ := hl.dead hn
      have hside := next?_side t input d n
      obtain ⟨hcovers, htraces⟩ := ih (hl.step hnext hmono hinput) (fun e he => by
        obtain rfl : d.opposite = e := by simpa [Direction.channel] using he
        rw [Direction.opposite_step_step, Direction.opposite_opposite, hnext]
        exact Int.lt_succ n) hrest
      rw [withConnections_cons]
      refine ⟨hcovers, fun s e hs => ?_⟩
      rw [htraces s e hs, traces_withConnection_of_dead hside hdead,
        leads_withConnection_iff hside hdead]
      -- A stream that starts at no side comes by the new entry of the next tile only through the
      -- new connection.
      have hnot : ¬Leads K s ⟨d.step t, d.opposite.channel n⟩ := by
        intro hlead
        rcases hlead.eq_or_next with rfl | ⟨c, hc, -, hcnext⟩
        · simp [Channel.isSide, Direction.channel] at hs
        · exact hl.unreached hn hc hcnext
      simp only [hnot, false_or, and_true]
      rfl

/-- The circuit between two endpoints lets a stream that starts at the first arrive at the second,
and changes no other arrival of streams that do not start at a side of a tile. -/
theorem route_traces {K : Connection → Prop} {l l' : ChannelLedger} {source destination : Endpoint}
    {cs : List Connection} (hl : l.Covers K) (hsource : source.channel.isSide = false)
    (hdestination : destination.channel.isSide = false)
    (hreach : source.tile.InReach destination.tile)
    (h : circuit? destination.channel l source.channel
      (source.tile.pathTo destination.tile) = some (cs, l')) :
    l'.Covers (withConnections K cs) ∧ ∀ s d, s.channel.isSide = false →
      (Traces (withConnections K cs) s d ↔ Traces K s d ∨ (s = source ∧ d = destination)) := by
  have hnone : Direction.ofName? source.channel.bundle = none := by
    simpa [Channel.isSide] using hsource
  obtain ⟨hcovers, htraces⟩ := circuit?_traces hdestination
    (Tile.pathTo_isPath hreach) hl (by simp [hnone]) h
  refine ⟨hcovers, fun s d hs => ?_⟩
  rw [htraces s d hs]
  have hlead : Leads K s source ↔ s = source := by
    constructor
    · intro hlead
      rcases hlead.eq_or_next with rfl | ⟨c, hc, -, hnext⟩
      · rfl
      · rw [Connection.next?, Option.map_eq_some_iff] at hnext
        obtain ⟨e, -, rfl⟩ := hnext
        simp [Direction.channel] at hnone
    · rintro rfl
      exact .refl s
  rw [show (⟨source.tile, source.channel⟩ : Endpoint) = source from rfl, hlead]

end TileFlow
