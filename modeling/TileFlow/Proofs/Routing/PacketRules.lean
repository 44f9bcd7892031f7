import TileFlow.Proofs.Routing.PacketSteps
import TileFlow.Proofs.Stage.Orderly

/-!
# The rules of packet flows

The router of packets puts a rule for each tile on the path to each destination into the table of
the device, one packet flow after the other, and takes the packet flows away. What is in the table
in the end is told by the rules that were there and by the packets that are asked for.

## Main definitions

* `PacketStream`: a packet that is routed.
* `Program.Asks`, `Program.RequestsPacket`: the packets that are asked for.
* `Program.RequestsRule`: the rules that are asked for.

## Main results

* `routePacketFlow_fills`: one packet flow.
* `Source.packetReady_of_parse`: which sources can be routed.
* `routePacketFlows_rules`: the rules in the end.
-/

namespace TileFlow

open TileFlow.Action

variable {p q r : Program} {device : OpId} {rule : Operation} {tile : Tile}

/-! ### Packet flows -/

/-- A packet that is routed: its identifier and the ends of its path. -/
structure PacketStream where
  id : Int
  source : Endpoint
  destination : Endpoint

namespace PacketStream

/-- The tiles between the ends. -/
def path (s : PacketStream) : List Tile :=
  s.source.tile.pathTo s.destination.tile

/-- The rules along the path, each with its tile. -/
def rules (s : PacketStream) : List (Tile × Operation) :=
  (packetHops s.destination.channel s.source.channel s.path).map fun c =>
    (c.tile, packetRule s.id c.input c.output)

end PacketStream

/-- The rule for one tile is put in place. -/
theorem layRule_fills {id : Int} {input output : Channel} (hp : p.PacketReady device)
    (h : runOn (do
      let box ← switchboxFor device tile
      addOnce box (packetRule id input output)) p = (.ok (), q)) :
    p.Fills device ((p.ruleTable device).add tile (packetRule id input output)) [] q := by
  obtain ⟨box, r, hbox, h⟩ := bind_ok.1 h
  obtain ⟨T, hr, hfirst, hT⟩ := switchboxFor_fills hp hbox
  have hq := addOnce_fills hr.ready hfirst rfl rfl h
  rw [hr.table, hT] at hq
  exact hr.trans hq

/-- The rules along a path are put in place one after the other. -/
theorem layPackets_fills {id : Int} {input output : Channel} {path : List Tile}
    (hp : p.PacketReady device)
    (h : runOn (layPackets device id output input path) p = (.ok (), q)) :
    p.Fills device ((p.ruleTable device).addAll ((packetHops output input path).map fun c =>
      (c.tile, packetRule id c.input c.output))) [] q := by
  induction path generalizing p input with
  | nil =>
      rw [layPackets] at h
      obtain ⟨-, rfl⟩ := pure_ok.1 h
      exact .refl hp
  | cons tile path ih =>
      cases path with
      | nil =>
          rw [layPackets] at h
          exact layRule_fills hp h
      | cons next rest =>
          rw [layPackets] at h
          obtain ⟨box, r, hbox, h⟩ := bind_ok.1 h
          obtain ⟨_, s, hadd, h⟩ := bind_ok.1 h
          have hs := layRule_fills hp (bind_ok.2 ⟨box, r, hbox, hadd⟩)
          have hq := ih hs.ready h
          rw [hs.table] at hq
          exact hs.trans hq

/-- The paths to several destinations are laid one after the other. -/
theorem layAll_fills {id : Int} {source : Endpoint} {model : DeviceModel}
    {destinations : List Endpoint} (hp : p.PacketReady device)
    (h : runOn (destinations.forM fun destination => do
      checkInside model destination.tile
      layPackets device id destination.channel source.channel
        (source.tile.pathTo destination.tile)) p = (.ok (), q)) :
    p.Fills device ((p.ruleTable device).addAll ((destinations.map fun destination =>
      (⟨id, source, destination⟩ : PacketStream)).flatMap PacketStream.rules)) [] q := by
  induction destinations generalizing p with
  | nil =>
      obtain rfl := forM_nil_ok.1 h
      exact .refl hp
  | cons destination destinations ih =>
      obtain ⟨r, hfirst, hrest⟩ := forM_cons_ok.1 h
      obtain ⟨_, _, hinside, hlay⟩ := bind_ok.1 hfirst
      obtain rfl := checkInside_ok hinside
      have hr := layPackets_fills hp hlay
      have hq := ih hr.ready hrest
      rw [hr.table, ← RuleTable.addAll_append] at hq
      exact hr.trans hq

/-- Whether a packet flow asks for a packet, where values name tiles as in a program that may be a
later one. -/
def Program.Asks (p q : Program) (flow : OpId) (s : PacketStream) : Prop :=
  (p.op flow).operandInt? 0 = some s.id ∧ ∃ a, p.findIn flow "aie.packet_source" = [a] ∧
    q.endpoint? (p.op a) 0 = some s.source ∧
    ∃ d ∈ p.findIn flow "aie.packet_dest", q.endpoint? (p.op d) 0 = some s.destination

/-- Whether all of a packet flow can be read: its identifier, one source and its destinations, of
which there is one at least. -/
structure Program.Reads (p q : Program) (flow : OpId) : Prop where
  id : ((p.op flow).operandInt? 0).isSome = true
  source : ∃ a, p.findIn flow "aie.packet_source" = [a] ∧ (q.endpoint? (p.op a) 0).isSome = true
  nonempty : p.findIn flow "aie.packet_dest" ≠ []
  destinations : ∀ d ∈ p.findIn flow "aie.packet_dest", (q.endpoint? (p.op d) 0).isSome = true

/-- A packet flow that is routed is read, and its rules are put in place. -/
theorem routePacketFlow_fills {flow : OpId} (hp : p.PacketReady device)
    (hflow : flow ∈ p.findIn device "aie.packet_flow")
    (h : runOn (routePacketFlow device flow) p = (.ok (), q)) :
    p.Reads p flow ∧ ∃ streams : List PacketStream, (∀ s, s ∈ streams ↔ p.Asks p flow s) ∧
      p.Fills device ((p.ruleTable device).addAll (streams.flatMap PacketStream.rules))
    [flow] q := by
  obtain ⟨n, a, source, destinations, r, hn, hsingle, hsource, hdestinations, hnonempty,
    hloop, rfl⟩ :=
    routePacketFlow_parts h
  have hmem : ∀ e, e ∈ destinations ↔ ∃ d ∈ p.findIn flow "aie.packet_dest",
      p.endpoint? (p.op d) 0 = some e := fun e => mem_iff_of_map_eq hdestinations
  have hr := layAll_fills hp hloop
  have hleft : flow ∈ r.findIn device "aie.packet_flow" := by
    rw [hr.flows]
    simpa using hflow
  have hq := hr.ready.fills_erase hleft
  rw [hr.table] at hq
  refine ⟨⟨by rw [hn]; rfl, ⟨a, hsingle, by rw [hsource]; rfl⟩, fun hnil => ?_, fun d hd => ?_⟩,
    destinations.map (⟨n, source, ·⟩), fun s => ?_, hr.trans hq⟩
  · rw [hnil, List.map_nil, eq_comm, List.map_eq_nil_iff] at hdestinations
    exact hnonempty hdestinations
  · have : p.endpoint? (p.op d) 0 ∈ destinations.map some :=
      hdestinations ▸ List.mem_map_of_mem hd
    obtain ⟨e, -, he⟩ := List.mem_map.1 this
    rw [← he]
    rfl
  · obtain ⟨id, source', destination⟩ := s
    simp only [List.mem_map, PacketStream.mk.injEq, Program.Asks, hn, hsingle, Option.some.injEq,
      List.cons.injEq, and_true, exists_eq_left', hsource, hmem]
    constructor
    · rintro ⟨e, he, rfl, rfl, rfl⟩
      exact ⟨rfl, rfl, he⟩
    · rintro ⟨rfl, rfl, he⟩
      exact ⟨destination, he, rfl, rfl, rfl⟩

/-! ### Runs -/

/-- What is read of a packet flow is read the same way later. -/
theorem Program.Reads.asks_iff {flow : OpId} {s : PacketStream} (h : p.Reads q flow)
    (htiles : ∀ v t, q.tileOf? v = some t → r.tileOf? v = some t) :
    p.Asks r flow s ↔ p.Asks q flow s := by
  have hread : ∀ {op e}, (q.endpoint? op 0).isSome = true →
      (r.endpoint? op 0 = some e ↔ q.endpoint? op 0 = some e) := fun {op e} hsome => by
    obtain ⟨e', he'⟩ := Option.isSome_iff_exists.1 hsome
    rw [he', endpoint?_mono htiles he']
  obtain ⟨-, ⟨a, hsingle, hsource⟩, -, hdestinations⟩ := h
  refine and_congr_right fun _ => exists_congr fun b => and_congr_right fun hb => ?_
  obtain rfl : a = b := by simpa [hsingle] using hb
  rw [hread hsource]
  exact and_congr_right fun _ => exists_congr fun d => and_congr_right fun hd =>
    hread (hdestinations d hd)

/-- A packet flow is read the same when more values denote tiles. -/
theorem Program.Reads.mono {flow : OpId} (h : p.Reads q flow)
    (htiles : ∀ v t, q.tileOf? v = some t → r.tileOf? v = some t) : p.Reads r flow := by
  have hread : ∀ {op}, (q.endpoint? op 0).isSome = true → (r.endpoint? op 0).isSome = true :=
    fun hsome => by
      obtain ⟨e, he⟩ := Option.isSome_iff_exists.1 hsome
      rw [endpoint?_mono htiles he]
      rfl
  obtain ⟨hid, ⟨a, hsingle, hsource⟩, hnonempty, hdestinations⟩ := h
  exact ⟨hid, ⟨a, hsingle, hread hsource⟩, hnonempty, fun d hd => hread (hdestinations d hd)⟩

/-- What a packet flow asks for is the same in programs in which it is the same. -/
theorem Program.SameAt.asks_iff {flow : OpId} {s : PacketStream} (h : p.SameAt flow q) :
    q.Asks r flow s ↔ p.Asks r flow s := by
  have hop : ∀ {name id}, id ∈ p.findIn flow name → q.op id = p.op id := fun hid =>
    h.op _ (.inr (List.mem_filter.1 hid).1)
  rw [Program.Asks, Program.Asks, h.op flow (.inl rfl), h.findIn, h.findIn]
  refine and_congr_right fun _ => exists_congr fun a => and_congr_right fun ha => ?_
  rw [hop (ha ▸ List.mem_singleton_self a)]
  exact and_congr_right fun _ => exists_congr fun d => and_congr_right fun hd => by rw [hop hd]

/-- A packet flow with the same ends is read the same. -/
theorem Program.SameAt.reads {flow : OpId} (h : p.SameAt flow q) (hq : q.Reads r flow) :
    p.Reads r flow := by
  have hop : ∀ {name id}, id ∈ p.findIn flow name → q.op id = p.op id := fun hid =>
    h.op _ (.inr (List.mem_filter.1 hid).1)
  obtain ⟨hid, ⟨a, hsingle, hsource⟩, hnonempty, hdestinations⟩ := hq
  rw [h.findIn] at hsingle hnonempty
  rw [h.findIn] at hdestinations
  rw [h.op flow (.inl rfl)] at hid
  rw [hop (hsingle ▸ List.mem_singleton_self a)] at hsource
  exact ⟨hid, ⟨a, hsingle, hsource⟩, hnonempty, fun d hd => hop hd ▸ hdestinations d hd⟩

/-- Some packet flows have been routed. -/
structure Program.Routed (p : Program) (device : OpId) (flows : List OpId)
    (streams : List PacketStream) (q : Program) : Prop where
  effect : p.Fills device ((p.ruleTable device).addAll (streams.flatMap PacketStream.rules)) flows q
  reads : ∀ flow ∈ flows, p.Reads q flow
  asks : ∀ s, s ∈ streams ↔ ∃ flow ∈ flows, p.Asks q flow s

/-- One more packet flow is routed. -/
theorem Program.Routed.step {done : List OpId} {streams : List PacketStream} {flow : OpId}
    (h : p.Routed device done streams r) (hflow : flow ∈ p.findIn device "aie.packet_flow")
    (hnew : flow ∉ done) (hrun : runOn (routePacketFlow device flow) r = (.ok (), q)) :
    ∃ streams', p.Routed device (done ++ [flow]) (streams ++ streams') q := by
  have hflowr : flow ∈ r.findIn device "aie.packet_flow" := by
    rw [h.effect.flows, List.mem_filter]
    exact ⟨hflow, by simpa using hnew⟩
  have hsame := h.effect.same flow hflow hnew
  obtain ⟨hreads, streams', hstreams, hq⟩ := routePacketFlow_fills h.effect.ready hflowr hrun
  rw [h.effect.table, ← RuleTable.addAll_append, ← List.flatMap_append] at hq
  have hread : p.Reads r flow := hsame.reads hreads
  refine ⟨streams', ⟨h.effect.trans hq, ?_, fun s => ?_⟩⟩
  · rw [List.forall_mem_append, List.forall_mem_singleton]
    exact ⟨fun x hx => (h.reads x hx).mono hq.tiles, hread.mono hq.tiles⟩
  · rw [List.mem_append, h.asks, hstreams, hsame.asks_iff]
    simp only [List.mem_append, List.mem_singleton, or_and_right, exists_or, exists_eq_left,
      hread.asks_iff hq.tiles]
    exact or_congr_left (exists_congr fun x => and_congr_right fun hx =>
      ((h.reads x hx).asks_iff hq.tiles).symm)

/-- Whether a device asks for a packet, where values name tiles as in a program that may be a later
one. -/
def Program.RequestsPacket (p q : Program) (device : OpId) (s : PacketStream) : Prop :=
  ∃ flow ∈ p.findIn device "aie.packet_flow", p.Asks q flow s

/-- What the router of packets makes of a device. -/
theorem routePacketFlows_routed (hp : p.PacketReady device)
    (h : runOn (routePacketFlows device) p = (.ok (), q)) :
    ∃ streams, p.Routed device (p.findIn device "aie.packet_flow") streams q := by
  rw [routePacketFlows, get_bind_ok] at h
  refine forM_prefix (I := fun done r => ∃ streams, p.Routed device done streams r)
    (hp.tree.sound.nodup_findIn hp.inBody _) h ⟨[], .refl hp, by simp, by simp⟩
    fun flow hflow done hnew r s ⟨streams, hr⟩ hrun => ?_
  obtain ⟨streams', hs⟩ := hr.step hflow hnew hrun
  exact ⟨streams ++ streams', hs⟩

/-- Whether the destination of a packet is in reach of its source. -/
def PacketStream.InReach (s : PacketStream) : Prop :=
  s.source.tile.InReach s.destination.tile

/-- The rules of a packet, tile by tile. -/
theorem PacketStream.mem_rules {s : PacketStream} (h : s.InReach) : (tile, rule) ∈ s.rules ↔
    ∃ c : Connection, c.OnPath s.source s.destination ∧ c.tile = tile ∧
      rule = packetRule s.id c.input c.output := by
  have hpath := Tile.pathTo_isPath h
  rw [rules, List.mem_map]
  simp only [path, mem_packetHops_iff hpath, Prod.mk.injEq, Connection.OnPath, eq_comm]

/-- Whether a device asks for a rule on a tile: the one of a packet at a tile of its path. -/
def Program.RequestsRule (p q : Program) (device : OpId) (tile : Tile) (rule : Operation) : Prop :=
  ∃ s, p.RequestsPacket q device s ∧ ∃ c : Connection, c.OnPath s.source s.destination ∧
    c.tile = tile ∧ rule = packetRule s.id c.input c.output

/-- The rules requested on a tile are those along the paths of the routed streams. -/
theorem Program.Routed.requestsRule_iff {streams : List PacketStream}
    (h : p.Routed device (p.findIn device "aie.packet_flow") streams q)
    (hreach : ∀ s, p.RequestsPacket q device s → s.InReach) :
    p.RequestsRule q device tile rule ↔ (tile, rule) ∈ streams.flatMap PacketStream.rules := by
  rw [List.mem_flatMap]
  refine exists_congr fun s => ?_
  rw [h.asks]
  exact and_congr_right fun hs => (PacketStream.mem_rules (hreach s hs)).symm

/-- Of what the parser makes of a source, it is enough that packet flows have nothing else below
them and that no switchbox names the value of one. -/
theorem Source.packetReady_of_parse {source : String} (h : Source.parse source = .ok p)
    (hdevice : device ∈ p.walk)
    (ends : ∀ flow ∈ p.findIn device "aie.packet_flow", ∀ id ∈ p.walkIn flow,
      (p.op id).name ∈ ["aie.packet_source", "aie.packet_dest"])
    (free : ∀ box ∈ p.findIn device "aie.switchbox", ∀ d, p.InPacketFlow device d →
      ∀ v, (p.op d).result = some v → (p.op box).operandValue? 0 ≠ some v) :
    p.PacketReady device := by
  have hp := Source.orderly_of_parse h
  refine ⟨hp.tree, hdevice, hp.values, ends, fun box hbox v hv => ?_⟩
  have hlt := hp.tree.sound.lt_size_of_walkIn (List.mem_filter.1 hbox).1
  obtain ⟨d, hd, hresult⟩ := Program.mem_definedValues.1
    (Source.mem_definedValues_of_parse h hlt (Operation.mem_operands_of_value hv))
  exact ⟨d, hd, hresult, fun hin => free box hbox d hin v hresult hv⟩

/-- **The rules of packet flows.** When the packet flows of a device have been routed, and no packet
has to go further than the range of coordinates, no packet flow is left, and each has been read. The
rules on a tile are those that were there before and those of the packets whose paths cross it: from
the source, or the side of the tile before, to the side of the next tile, or the destination, on
channel 0 between tiles. A rule that is new is there once, and following the rules of its identifier
leads every packet from its source to its destination. The rules in the end depend on those of
before and on the packets, and not on the order in which flows and destinations are given. -/
theorem routePacketFlows_rules (hp : p.PacketReady device)
    (h : runOn (routePacketFlows device) p = (.ok (), q))
    (hreach : ∀ s, p.RequestsPacket q device s → s.InReach) :
    q.findIn device "aie.packet_flow" = [] ∧
    (∀ v t, p.tileOf? v = some t → q.tileOf? v = some t) ∧
    (∀ flow ∈ p.findIn device "aie.packet_flow", p.Reads q flow) ∧
    (∀ tile rule, rule ∈ (q.ruleTable device).on tile ↔
      rule ∈ (p.ruleTable device).on tile ∨ p.RequestsRule q device tile rule) ∧
    (∀ tile, ∀ rule ∈ (q.ruleTable device).on tile, rule ∉ (p.ruleTable device).on tile →
      ((q.ruleTable device).on tile).count rule = 1) ∧
    (∀ s, p.RequestsPacket q device s → Reaches
      (fun c => packetRule s.id c.input c.output ∈ (q.ruleTable device).on c.tile)
      s.source s.destination) ∧
    ∀ p' q', p'.PacketReady device → runOn (routePacketFlows device) p' = (.ok (), q') →
      (∀ tile rule, rule ∈ (p'.ruleTable device).on tile ↔ rule ∈ (p.ruleTable device).on tile) →
      (∀ s, p'.RequestsPacket q' device s ↔ p.RequestsPacket q device s) →
      ∀ tile rule, rule ∈ (q'.ruleTable device).on tile ↔ rule ∈ (q.ruleTable device).on tile := by
  have hmem : ∀ {p q : Program}, p.PacketReady device →
      runOn (routePacketFlows device) p = (.ok (), q) →
      (∀ s, p.RequestsPacket q device s → s.InReach) → ∀ tile rule,
      rule ∈ (q.ruleTable device).on tile ↔
        rule ∈ (p.ruleTable device).on tile ∨ p.RequestsRule q device tile rule :=
    fun hp h hreach tile rule => by
      obtain ⟨streams, hq⟩ := routePacketFlows_routed hp h
      rw [hq.effect.table, RuleTable.mem_on_addAll, hq.requestsRule_iff hreach]
  obtain ⟨streams, hq⟩ := routePacketFlows_routed hp h
  refine ⟨?_, hq.effect.tiles, hq.reads, hmem hp h hreach, fun tile rule hrule hnew => ?_,
    fun s hs => ?_,
    fun p' q' hp' h' hbefore hrequests tile rule => ?_⟩
  · rw [hq.effect.flows]
    exact List.filter_eq_nil_iff.2 fun flow hflow => by simp [hflow]
  · have hasked := ((hmem hp h hreach tile rule).1 hrule).resolve_left hnew
    rw [hq.effect.table]
    exact RuleTable.count_on_addAll_of_new hnew ((hq.requestsRule_iff hreach).1 hasked)
  · -- Every connection along the path is asked for by the packet itself.
    have hpath := Tile.pathTo_isPath (hreach s hs)
    refine packetHops_reaches hpath fun c hc =>
      (hmem hp h hreach c.tile _).2 (.inr ⟨s, hs, c, ?_, rfl, rfl⟩)
    exact (mem_packetHops_iff hpath).1 hc
  · rw [hmem hp' h' fun s hs => hreach s ((hrequests s).1 hs), hmem hp h hreach, hbefore]
    simp only [Program.RequestsRule, hrequests]

/-- Packets stay in reach if the ends of each packet flow are in reach of each other. -/
theorem inReach_of_requestsPacket {s : PacketStream}
    (h : ∀ flow ∈ p.findIn device "aie.packet_flow", ∀ a ∈ p.findIn flow "aie.packet_source",
      ∀ source ∈ q.endpoint? (p.op a) 0, ∀ d ∈ p.findIn flow "aie.packet_dest",
      ∀ destination ∈ q.endpoint? (p.op d) 0, source.tile.InReach destination.tile)
    (hs : p.RequestsPacket q device s) : s.InReach := by
  obtain ⟨flow, hflow, -, a, ha, hsource, d, hd, hdestination⟩ := hs
  exact h flow hflow a (ha ▸ List.mem_singleton_self a) _ hsource d hd _ hdestination

/-- A packet flow from a channel of the tile of one value to a channel of the tile of another, and
to some more. -/
def packetFlow (result : Option String) (id : Int) (a b : String) (rest : List Operation) :
    Forest Operation :=
  .single { name := "aie.packet_flow", result, operands := [.int id], hasRegion := true }
    (.leaves ({ name := "aie.packet_source", operands := [.value a, .ident "DMA", .int 0] } ::
      { name := "aie.packet_dest", operands := [.value b, .ident "DMA", .int 0] } :: rest) .nil)

/-- A packet from a tile to two channels of another one, with a switchbox on a value in between. -/
def packetProgram (value : String) (flow : Forest Operation) : Program :=
  twoTiles "ipu" ⟨0, 1⟩ ⟨0, 3⟩ <|
    flow ++ (.cons { name := "aie.switchbox", operands := [.value value], hasRegion := true } .nil
      (packetFlow none 2 "a" "b"
        [{ name := "aie.packet_dest", operands := [.value "b", .ident "DMA", .int 1] }]))

/-- The example program is ready for packets. -/
theorem packetReady_packetProgram : (packetProgram "b" .nil).PacketReady 0 where
  tree := (Program.wellFormed_ofForest _ _).tree rfl
  inBody := by decide +kernel
  values := by decide +kernel
  ends := by decide +kernel
  placed box hbox v hv := by
    have hboxes : (packetProgram "b" .nil).findIn 0 "aie.switchbox" = [3] := by decide +kernel
    have hvalue : ((packetProgram "b" .nil).op 3).operandValue? 0 = some "b" := by decide +kernel
    obtain rfl : box = 3 := by simpa [hboxes] using hbox
    obtain rfl : "b" = v := Option.some.inj (hvalue.symm.trans hv)
    refine ⟨2, by decide +kernel, by decide +kernel, fun hin => ?_⟩
    obtain ⟨flow, hflow, hin⟩ := hin
    revert hin
    revert flow
    decide +kernel

/-- The two channels share the rule on the tile in between. -/
theorem routePacketFlows_rules_shared : ∃ q,
    runOn (routePacketFlows 0) (packetProgram "b" .nil) = (.ok (), q) ∧
      q.findIn 0 "aie.packet_flow" = [] ∧
      ((q.ruleTable 0).on ⟨0, 2⟩).count (packetRule 2 ⟨"South", 0⟩ ⟨"North", 0⟩) = 1 ∧
      (packetProgram "b" .nil).RequestsPacket q 0 ⟨2, ⟨⟨0, 1⟩, ⟨"DMA", 0⟩⟩, ⟨⟨0, 3⟩, ⟨"DMA", 1⟩⟩⟩ ∧
      Reaches (fun c => packetRule 2 c.input c.output ∈ (q.ruleTable 0).on c.tile)
        ⟨⟨0, 1⟩, ⟨"DMA", 0⟩⟩ ⟨⟨0, 3⟩, ⟨"DMA", 1⟩⟩ := by
  have hok : (runOn (routePacketFlows 0) (packetProgram "b" .nil)).1 = .ok () ∧
      packetRule 2 ⟨"South", 0⟩ ⟨"North", 0⟩ ∈
        ((runOn (routePacketFlows 0) (packetProgram "b" .nil)).2.ruleTable 0).on ⟨0, 2⟩ ∧
      packetRule 2 ⟨"South", 0⟩ ⟨"North", 0⟩ ∉
        ((packetProgram "b" .nil).ruleTable 0).on ⟨0, 2⟩ ∧
      (packetProgram "b" .nil).findIn 0 "aie.packet_flow" = [4] ∧
      ((packetProgram "b" .nil).op 4).operandInt? 0 = some 2 ∧
      (packetProgram "b" .nil).findIn 4 "aie.packet_source" = [5] ∧
      (packetProgram "b" .nil).endpoint? ((packetProgram "b" .nil).op 5) 0 =
        some ⟨⟨0, 1⟩, ⟨"DMA", 0⟩⟩ ∧
      7 ∈ (packetProgram "b" .nil).findIn 4 "aie.packet_dest" ∧
      (packetProgram "b" .nil).endpoint? ((packetProgram "b" .nil).op 7) 0 =
        some ⟨⟨0, 3⟩, ⟨"DMA", 1⟩⟩ ∧
      ∀ flow ∈ (packetProgram "b" .nil).findIn 0 "aie.packet_flow",
        ∀ a ∈ (packetProgram "b" .nil).findIn flow "aie.packet_source",
        ∀ source ∈ (runOn (routePacketFlows 0) (packetProgram "b" .nil)).2.endpoint?
          ((packetProgram "b" .nil).op a) 0,
        ∀ d ∈ (packetProgram "b" .nil).findIn flow "aie.packet_dest",
        ∀ destination ∈ (runOn (routePacketFlows 0) (packetProgram "b" .nil)).2.endpoint?
          ((packetProgram "b" .nil).op d) 0, source.tile.InReach destination.tile := by
    decide +kernel
  rcases h : runOn (routePacketFlows 0) (packetProgram "b" .nil) with ⟨e | ⟨⟩, q⟩
  · rw [h] at hok
    cases hok.1
  rw [h] at hok
  obtain ⟨-, hrule, hnew, hflows, hid, hsource, hstart, hdest, hend, hreach⟩ := hok
  obtain ⟨hgone, htiles, -, -, honce, hreaches, -⟩ :=
    routePacketFlows_rules packetReady_packetProgram h fun _ => inReach_of_requestsPacket hreach
  have hasks : (packetProgram "b" .nil).RequestsPacket q 0
      ⟨2, ⟨⟨0, 1⟩, ⟨"DMA", 0⟩⟩, ⟨⟨0, 3⟩, ⟨"DMA", 1⟩⟩⟩ :=
    ⟨4, by rw [hflows]; exact List.mem_singleton_self 4, hid, 5, hsource,
      Program.endpoint?_mono htiles hstart, 7, hdest, Program.endpoint?_mono htiles hend⟩
  exact ⟨q, rfl, hgone, honce ⟨0, 2⟩ _ hrule hnew, hasks, hreaches _ hasks⟩

/-- A packet flow between the first column and the last one that there can be. -/
def farPacketProgram : Program :=
  twoTiles "array" ⟨Integer.least, 2⟩ ⟨Integer.greatest, 2⟩ (packetFlow none 1 "a" "b" [])

/-- What the packet flow becomes. -/
def routedFarPacketProgram : Program :=
  (runOn (routePacketFlows 0) farPacketProgram).2

/-- The rules of a packet tell its channels. -/
theorem packetRule_inj {id : Int} {input output input' output' : Channel}
    (h : packetRule id input output = packetRule id input' output') :
    input = input' ∧ output = output' := by
  obtain ⟨bundle, index⟩ := input
  obtain ⟨bundle', index'⟩ := output
  have := congrArg Operation.operands h
  simp only [packetRule, connection, Operation.withAttr, List.cons.injEq, Attribute.ident.injEq,
    Attribute.int.injEq] at this
  obtain ⟨rfl, rfl, rfl, rfl, -⟩ := this
  exact ⟨rfl, rfl⟩

/-- The only rules are on the two tiles, and the packet is lost between them. -/
theorem not_reaches_routedFarPacketProgram : ¬ Reaches
    (fun c => packetRule 1 c.input c.output ∈ (routedFarPacketProgram.ruleTable 0).on c.tile)
    ⟨⟨Integer.least, 2⟩, ⟨"DMA", 0⟩⟩ ⟨⟨Integer.greatest, 2⟩, ⟨"DMA", 0⟩⟩ := by
  have htable : routedFarPacketProgram.ruleTable 0 =
      [(some ⟨Integer.least, 2⟩, [packetRule 1 ⟨"DMA", 0⟩ ⟨"East", 0⟩]),
        (some ⟨Integer.greatest, 2⟩, [packetRule 1 ⟨"West", 0⟩ ⟨"DMA", 0⟩])] := by
    decide +kernel
  have hrules : ∀ c : Connection,
      packetRule 1 c.input c.output ∈ (routedFarPacketProgram.ruleTable 0).on c.tile →
        c = ⟨⟨Integer.least, 2⟩, ⟨"DMA", 0⟩, ⟨"East", 0⟩⟩ ∨
          c = ⟨⟨Integer.greatest, 2⟩, ⟨"West", 0⟩, ⟨"DMA", 0⟩⟩ := by
    rintro ⟨tile, input, output⟩ h
    rw [htable, RuleTable.on_cons, RuleTable.on_cons, List.mem_append, List.mem_append] at h
    rcases h with h | h | h
    · split at h
      · rename_i htile
        obtain ⟨rfl, rfl⟩ := packetRule_inj (List.mem_singleton.1 h)
        obtain rfl : (⟨Integer.least, 2⟩ : Tile) = tile := Option.some.inj htile
        exact .inl rfl
      · cases h
    · split at h
      · rename_i htile
        obtain ⟨rfl, rfl⟩ := packetRule_inj (List.mem_singleton.1 h)
        obtain rfl : (⟨Integer.greatest, 2⟩ : Tile) = tile := Option.some.inj htile
        exact .inr rfl
      · cases h
    · cases h
  rintro ⟨c, hc, hlead, hfinish⟩
  -- The way leads from the first tile to its neighbour, where there is no rule.
  generalize hs : (⟨⟨Integer.least, 2⟩, ⟨"DMA", 0⟩⟩ : Endpoint) = s at hlead
  generalize ht : c.start = t at hlead
  cases hlead with
  | refl => rcases hrules c hc with rfl | rfl <;> subst ht <;> revert hs hfinish <;> decide
  | @hop c' e _ hc' hnext hlead =>
      obtain rfl : e = ⟨⟨Integer.least + 1, 2⟩, ⟨"West", 0⟩⟩ := by
        rcases hrules c' hc' with rfl | rfl
        · exact (Option.some.inj hnext).symm
        · exact absurd hs (by decide)
      generalize he : (⟨⟨Integer.least + 1, 2⟩, ⟨"West", 0⟩⟩ : Endpoint) = e at hlead
      cases hlead with
      | refl => rcases hrules c hc with rfl | rfl <;> subst ht <;> revert he <;> decide
      | @hop c'' _ _ hc'' => rcases hrules c'' hc'' with rfl | rfl <;> revert he <;> decide

/-- A packet flow whose value a switchbox names as its tile. When the flow has gone, the value is
free, and the tile in between, which is created then, gets it: the switchbox is on the tile from
then on, before the one that was created for it, and the rule is in both. And a packet to a tile out
of reach that does not arrive. -/
theorem routePacketFlows_rules_captured :
    (∃ p : Program, p = packetProgram "tile_0_2" (packetFlow (some "tile_0_2") 1 "a" "a" []) ∧
      p.Tree ∧ p.definedValues.Nodup ∧
      (∀ flow ∈ p.findIn 0 "aie.packet_flow", ∀ id ∈ p.walkIn flow,
        (p.op id).name ∈ ["aie.packet_source", "aie.packet_dest"]) ∧
      (runOn (routePacketFlows 0) p).1 = .ok () ∧
      packetRule 2 ⟨"South", 0⟩ ⟨"North", 0⟩ ∉ (p.ruleTable 0).on ⟨0, 2⟩ ∧
      (((runOn (routePacketFlows 0) p).2.ruleTable 0).on ⟨0, 2⟩).count
        (packetRule 2 ⟨"South", 0⟩ ⟨"North", 0⟩) = 2) ∧
    farPacketProgram.PacketReady 0 ∧ (runOn (routePacketFlows 0) farPacketProgram).1 = .ok () ∧
    farPacketProgram.RequestsPacket routedFarPacketProgram 0
      ⟨1, ⟨⟨Integer.least, 2⟩, ⟨"DMA", 0⟩⟩, ⟨⟨Integer.greatest, 2⟩, ⟨"DMA", 0⟩⟩⟩ ∧
    ¬ Reaches
      (fun c => packetRule 1 c.input c.output ∈ (routedFarPacketProgram.ruleTable 0).on c.tile)
      ⟨⟨Integer.least, 2⟩, ⟨"DMA", 0⟩⟩ ⟨⟨Integer.greatest, 2⟩, ⟨"DMA", 0⟩⟩ :=
  ⟨⟨_, rfl, (Program.wellFormed_ofForest _ _).tree rfl, by decide +kernel, by decide +kernel,
      by decide +kernel, by decide +kernel, by decide +kernel⟩,
    { tree := (Program.wellFormed_ofForest _ _).tree rfl
      inBody := by decide +kernel
      values := by decide +kernel
      ends := by decide +kernel
      placed := by
        have hnone : farPacketProgram.findIn 0 "aie.switchbox" = [] := by decide +kernel
        simp [hnone] },
    by decide +kernel,
    ⟨3, by decide +kernel, by decide +kernel, 4, by decide +kernel, by decide +kernel, 5,
      by decide +kernel, by decide +kernel⟩,
    not_reaches_routedFarPacketProgram⟩

end TileFlow
