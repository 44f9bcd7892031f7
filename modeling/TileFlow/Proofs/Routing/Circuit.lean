import TileFlow.Proofs.Routing.Wiring
import TileFlow.Proofs.Stage.Action

/-!
# Circuit routing implements the flows

The stage that routes flows over circuits creates tiles and switchboxes when they are missing, lays
one circuit for each flow and erases the flow. In the end a stream that starts at no side of a tile
arrives exactly where a flow asked it to.

## Main definitions

* `Program.endpoint?`: an endpoint that an operation describes.
* `Program.Requests`: the flows that a device asks for.

## Main results

* `layCircuit_ok`: the stage lays the circuit of a flow.
* `routeCircuitFlows_traces`: arrivals are requests.
-/

namespace TileFlow

open TileFlow.Action

variable {p q : Program} {device : OpId}

/-! ### Endpoints -/

/-- The endpoint that three operands of an operation describe. -/
def Program.endpoint? (p : Program) (op : Operation) (first : Nat) : Option Endpoint :=
  match (op.operandValue? first).bind p.tileOf?, op.operandText? (first + 1),
    op.operandInt? (first + 2) with
  | some tile, some bundle, some index => some { tile, channel := { bundle, index } }
  | _, _, _ => none

/-- Whether a device has a flow from one endpoint to another. -/
def Program.Requests (p : Program) (device : OpId) (source destination : Endpoint) : Prop :=
  ∃ flow ∈ p.findIn device "aie.flow", p.endpoint? (p.op flow) 0 = some source ∧
    p.endpoint? (p.op flow) 3 = some destination

/-- What reading an endpoint gives is the endpoint, and nothing changes. -/
theorem readEndpoint_ok {op : Operation} {first : Nat} {e : Endpoint}
    (h : runOn (readEndpoint op first) p = (.ok e, q)) :
    p.endpoint? op first = some e ∧ p = q := by
  rw [readEndpoint, get_bind_ok] at h
  obtain ⟨value, hvalue, h⟩ := orFail_bind_ok.1 h
  obtain ⟨tile, htile, h⟩ := orFail_bind_ok.1 h
  obtain ⟨bundle, hbundle, h⟩ := orFail_bind_ok.1 h
  obtain ⟨index, hindex, h⟩ := orFail_bind_ok.1 h
  obtain ⟨rfl, rfl⟩ := pure_ok.1 h
  rw [Program.endpoint?, hvalue, Option.bind_some, htile, hbundle, hindex]
  exact ⟨rfl, rfl⟩

/-- An endpoint is the same where the values name the same tiles. -/
theorem Program.endpoint?_mono (h : ∀ v t, p.tileOf? v = some t → q.tileOf? v = some t)
    {op : Operation} {first : Nat} {x : Endpoint} (hx : p.endpoint? op first = some x) :
    q.endpoint? op first = some x := by
  rw [endpoint?] at hx
  split at hx
  · rename_i t bundle index htile hbundle hindex
    obtain ⟨v, hv, ht⟩ := Option.bind_eq_some_iff.1 htile
    rw [endpoint?, hv, Option.bind_some, h v t ht, hbundle, hindex]
    exact hx
  · cases hx

/-! ### Tiles and switchboxes -/

/-- The value of a tile, created or not, names the tile. -/
theorem tileValue_ok (hp : p.Routable device) {tile : Tile} {value : String}
    (h : runOn (tileValue device tile) p = (.ok value, q)) :
    p.Routes device [] [] q ∧ q.tileOf? value = some tile := by
  rw [tileValue, get_bind_ok] at h
  split at h
  · rename_i found hfound
    obtain ⟨rfl, rfl⟩ := pure_ok.1 h
    refine ⟨.refl hp, ?_⟩
    rw [Option.bind_eq_some_iff] at hfound
    obtain ⟨id, hid, hresult⟩ := hfound
    obtain ⟨hin, hname⟩ := List.mem_filter.1 (List.mem_of_find?_eq_some hid)
    have htile := List.find?_some hid
    rw [Program.tileOf?, (Program.definingOp?_eq_some_iff hp.values).2 ⟨hp.mem_walk hin, hresult⟩]
    dsimp only
    rw [if_pos hname]
    simpa using htile
  · dsimp only at h
    obtain ⟨_, r, hprepend, h⟩ := bind_ok.1 h
    rw [runOn_prepend, Prod.mk.injEq] at hprepend
    obtain ⟨-, rfl⟩ := hprepend
    obtain ⟨rfl, rfl⟩ := pure_ok.1 h
    have hadds := Program.adds_insertAt hp.wellFormed hp.inBody 0
      { name := "aie.tile"
        result := some (p.freshValue s!"tile_{tile.column}_{tile.row}")
        operands := [.int tile.column, .int tile.row] }
    have hfresh : ∀ v, some (p.freshValue s!"tile_{tile.column}_{tile.row}") = some v →
        v ∉ p.definedValues := fun v hv => by
      cases hv
      exact p.freshValue_notMem _
    have hroutes : p.Routes device [] [] _ := hadds.routes hp (.inl rfl) hfresh
      (fun hop => by simp [Operation.is] at hop) (fun c => by simp [Operation.is])
    refine ⟨hroutes, ?_⟩
    rw [Program.tileOf?, (Program.definingOp?_eq_some_iff hroutes.routable.values).2
      ⟨(hadds.walk _).2 (.inl rfl), by rw [hadds.new]⟩]
    dsimp only
    rw [hadds.new]
    rfl

/-- The switchbox of a tile, created or not, is one of the device and sits on the tile. -/
theorem switchboxFor_ok (hp : p.Routable device) {tile : Tile} {box : OpId}
    (h : runOn (switchboxFor device tile) p = (.ok box, q)) :
    p.Routes device [] [] q ∧ box ∈ q.findIn device "aie.switchbox" ∧
      q.switchboxTile? box = some tile := by
  rw [switchboxFor, get_bind_ok] at h
  split at h
  · rename_i found hfound
    obtain ⟨rfl, rfl⟩ := pure_ok.1 h
    have htile := List.find?_some hfound
    exact ⟨.refl hp, List.mem_of_find?_eq_some hfound, by simpa using htile⟩
  · obtain ⟨value, r, hvalue, h⟩ := bind_ok.1 h
    obtain ⟨hr, htile⟩ := tileValue_ok hp hvalue
    rw [runOn_append, Prod.mk.injEq, Except.ok.injEq] at h
    obtain ⟨rfl, rfl⟩ := h
    have hadds := Program.adds_insertAt hr.routable.wellFormed hr.routable.inBody
      (r.children (some device)).length
      { name := "aie.switchbox", operands := [.value value], hasRegion := true }
    have hroutes : r.Routes device [] [] _ := hadds.routes hr.routable (.inl rfl)
      (fun v hv => by cases hv)
      (fun hop => by simp [Operation.is] at hop) (fun c => by simp [Operation.is])
    refine ⟨hr.trans hroutes, List.mem_filter.2 ⟨?_, ?_⟩, ?_⟩
    · exact (hadds.walkIn device hr.routable.inBody _).2 (.inr ⟨.inl rfl, rfl⟩)
    · rw [Program.append, Program.fst_insertAt, hadds.new]
      rfl
    · rw [Program.append, Program.fst_insertAt, Program.switchboxTile?, hadds.new]
      exact hroutes.tiles value tile htile

/-- A connection that is appended to a switchbox. -/
theorem connect_ok (hp : p.Routable device) {box id : OpId} {tile : Tile} {input output : Channel}
    (hbox : box ∈ p.findIn device "aie.switchbox") (htile : p.switchboxTile? box = some tile)
    (h : runOn (Action.append box (connection "aie.connect" input output)) p = (.ok id, q)) :
    p.Routes device [⟨tile, input, output⟩] [] q := by
  rw [runOn_append, Prod.mk.injEq] at h
  obtain ⟨-, rfl⟩ := h
  obtain ⟨hin, hname⟩ := List.mem_filter.1 hbox
  have hadds := Program.adds_insertAt hp.wellFormed (hp.mem_walk hin)
    (p.children (some box)).length (connection "aie.connect" input output)
  refine hadds.routes hp (.inr ⟨hin, ?_⟩) (fun v hv => by cases hv)
    (fun _ => ⟨hbox, tile, htile⟩) fun c => ?_
  · rw [Operation.is, beq_iff_eq] at hname
    rw [Operation.is, hname]
    decide
  · obtain ⟨t, i, o⟩ := c
    have hname : (connection "aie.connect" input output).is "aie.connect" = true := rfl
    have hchannels : (connection "aie.connect" input output).channels? = some (input, output) := rfl
    rw [htile, hname, hchannels]
    simp [eq_comm]

/-! ### Circuits -/

/-- The stage lays the connections of a circuit. -/
theorem layCircuit_ok {output : Channel} {l l' : ChannelLedger} {input : Channel}
    {path : List Tile} (hp : p.Routable device)
    (h : runOn (layCircuit device output l input path) p = (.ok l', q)) :
    ∃ cs, circuit? output l input path = some (cs, l') ∧ p.Routes device cs [] q := by
  induction path generalizing p l input with
  | nil =>
      rw [layCircuit] at h
      obtain ⟨rfl, rfl⟩ := pure_ok.1 h
      exact ⟨[], rfl, .refl hp⟩
  | cons tile path ih =>
      cases path with
      | nil =>
          rw [layCircuit] at h
          obtain ⟨box, r, hbox, h⟩ := bind_ok.1 h
          obtain ⟨hr, hmem, htile⟩ := switchboxFor_ok hp hbox
          obtain ⟨_, s, hconnect, h⟩ := bind_ok.1 h
          have hs := connect_ok hr.routable hmem htile hconnect
          obtain ⟨rfl, rfl⟩ := pure_ok.1 h
          exact ⟨_, rfl, hr.trans hs⟩
      | cons next rest =>
          rw [layCircuit] at h
          dsimp only at h
          obtain ⟨⟨channel, l₁⟩, halloc, h⟩ := orFail_bind_ok.1 h
          dsimp only at h
          obtain ⟨box, r, hbox, h⟩ := bind_ok.1 h
          obtain ⟨hr, hmem, htile⟩ := switchboxFor_ok hp hbox
          obtain ⟨_, s, hconnect, h⟩ := bind_ok.1 h
          have hs := connect_ok hr.routable hmem htile hconnect
          obtain ⟨cs, hcs, hq⟩ := ih hs.routable h
          refine ⟨_, ?_, (hr.trans hs).trans hq⟩
          rw [circuit?, halloc]
          dsimp only
          rw [Direction.channel, hcs]
          rfl

/-! ### Flows -/

/-- An endpoint that an operation describes is the same one when its value names a tile before. -/
theorem endpoint?_of_routes {cs : List Connection} {gone : List OpId} {id : OpId} {first : Nat}
    {e : Endpoint} (h : p.Routes device cs gone q) (hid : id ∈ p.walkIn device) (hgone : id ∉ gone)
    (htile : ∀ v, (p.op id).operandValue? first = some v → (p.tileOf? v).isSome = true)
    (he : q.endpoint? (q.op id) first = some e) : p.endpoint? (p.op id) first = some e := by
  have hoperands := (h.op id hid hgone).operands
  rw [Program.endpoint?, Operation.operandValue?, Operation.operandText?, Operation.operandInt?,
    hoperands, ← Operation.operandValue?, ← Operation.operandText?, ← Operation.operandInt?] at he
  rw [Program.endpoint?]
  split at he
  · rename_i tile bundle index hbind hbundle hindex
    obtain ⟨v, hv, hvt⟩ := Option.bind_eq_some_iff.1 hbind
    obtain ⟨t, ht⟩ := Option.isSome_iff_exists.1 (htile v hv)
    obtain rfl : t = tile := Option.some.inj ((h.tiles v t ht).symm.trans hvt)
    rw [hv, Option.bind_some, ht, hbundle, hindex, ← he]
  · cases he

/-- A flow becomes the circuit between its endpoints. -/
theorem routeCircuitFlow_ok {l l' : ChannelLedger} {flow : OpId} (hp : p.Routable device)
    (hin : flow ∈ p.walkIn device) (hflow : (p.op flow).is "aie.flow" = true)
    (hleaf : p.children (some flow) = [])
    (h : runOn (routeCircuitFlow device l flow) p = (.ok l', q)) :
    ∃ source destination cs, p.endpoint? (p.op flow) 0 = some source ∧
      p.endpoint? (p.op flow) 3 = some destination ∧
      circuit? destination.channel l source.channel
        (source.tile.pathTo destination.tile) = some (cs, l') ∧
      p.Routes device cs [flow] q := by
  rw [routeCircuitFlow, get_bind_ok] at h
  dsimp only at h
  obtain ⟨source, r, hread, h⟩ := bind_ok.1 h
  obtain ⟨hsource, rfl⟩ := readEndpoint_ok hread
  obtain ⟨destination, r, hread', h⟩ := bind_ok.1 h
  obtain ⟨hdestination, rfl⟩ := readEndpoint_ok hread'
  obtain ⟨-, h⟩ := ensure_bind_ok.1 h
  obtain ⟨-, h⟩ := ensure_bind_ok.1 h
  obtain ⟨l₁, s, hlay, h⟩ := bind_ok.1 h
  obtain ⟨cs, hcs, hs⟩ := layCircuit_ok hp hlay
  obtain ⟨_, t, herase, h⟩ := bind_ok.1 h
  rw [runOn_erase, Prod.mk.injEq] at herase
  obtain ⟨-, rfl⟩ := herase
  obtain ⟨rfl, rfl⟩ := pure_ok.1 h
  have hins := hs.kept flow hin List.not_mem_nil
  have hnil := Program.below_eq_nil (hs.leaves flow hin List.not_mem_nil hflow hleaf)
  obtain ⟨g, hg⟩ := Forest.mem_preorder_iff.1 (hs.routable.mem_walk hins)
  obtain rfl : g = .nil := (Program.below_of_below? hg).symm.trans hnil
  have hdrops := (Program.drops_erase hs.routable.wellFormed hg).routes hs.routable hins
    (by rw [(hs.op flow hin List.not_mem_nil).is, hflow])
  refine ⟨source, destination, cs, hsource, hdestination, hcs, ?_⟩
  simpa using hs.trans hdrops

/-- A device without connections, whose flows are leaves that name tiles in reach of each other and
no sides of tiles. -/
structure Program.PlainFlows (p : Program) (device : OpId) : Prop where
  unconnected : p.findIn device "aie.connect" = []
  leaves : ∀ flow ∈ p.findIn device "aie.flow", p.below flow = .nil
  bundles : ∀ flow ∈ p.findIn device "aie.flow", ∀ i ∈ [1, 4],
    ∀ bundle ∈ (p.op flow).operandText? i, Direction.ofName? bundle = none
  tiles : ∀ flow ∈ p.findIn device "aie.flow", ∀ i ∈ [0, 3],
    ∀ v ∈ (p.op flow).operandValue? i, (p.tileOf? v).isSome = true
  reach : ∀ flow ∈ p.findIn device "aie.flow", ∀ source ∈ p.endpoint? (p.op flow) 0,
    ∀ destination ∈ p.endpoint? (p.op flow) 3, source.tile.InReach destination.tile

/-- No endpoint of a flow is a side of a tile. -/
theorem Program.PlainFlows.notSide (h : p.PlainFlows device) {flow : OpId}
    (hflow : flow ∈ p.findIn device "aie.flow") {i : Nat} (hi : i + 1 ∈ [1, 4]) {e : Endpoint}
    (he : p.endpoint? (p.op flow) i = some e) : e.channel.isSide = false := by
  rw [Program.endpoint?] at he
  split at he
  · rename_i tile bundle index hbind hbundle hindex
    cases he
    simp [Channel.isSide, h.bundles flow hflow _ hi bundle hbundle]
  · cases he

/-- A part of the flows of a device has been routed. -/
structure Program.Routing (p : Program) (device : OpId) (done : List OpId) (l : ChannelLedger)
    (q : Program) : Prop where
  routes : ∃ cs, p.Routes device cs done q
  covers : l.Covers (q.connections device)
  traces : ∀ s d, s.channel.isSide = false → (Traces (q.connections device) s d ↔
    ∃ flow ∈ done, p.endpoint? (p.op flow) 0 = some s ∧ p.endpoint? (p.op flow) 3 = some d)

/-- No flow has been routed yet. -/
theorem Program.Routing.start (hp : p.WellFormed) (hdevice : device ∈ p.walk)
    (hvalues : p.definedValues.Nodup) (hflows : p.PlainFlows device) :
    p.Routing device [] (p.channelsOf device) p := by
  have hnone : ∀ box ∈ p.findIn device "aie.switchbox", p.findIn box "aie.connect" = [] := by
    intro box hbox
    rw [List.eq_nil_iff_forall_not_mem]
    intro id hid
    obtain ⟨hin, hname⟩ := List.mem_filter.1 hid
    have : id ∈ p.findIn device "aie.connect" :=
      List.mem_filter.2 ⟨hp.walkIn_trans hdevice (List.mem_filter.1 hbox).1 hin, hname⟩
    rw [hflows.unconnected] at this
    cases this
  have hempty : ∀ c, ¬p.connections device c := by
    rintro c ⟨box, hbox, -, id, hid, hname, -⟩
    have : id ∈ p.findIn box "aie.connect" :=
      List.mem_filter.2 ⟨Program.mem_walkIn_of_mem_children hid, hname⟩
    rw [hnone box hbox] at this
    cases this
  refine ⟨⟨[], .refl ⟨hp, hdevice, hvalues, fun box hbox id hid hname => ?_⟩⟩,
    ⟨fun c hc => absurd hc (hempty c), fun c hc => absurd hc (hempty c)⟩, fun s d _ => ?_⟩
  · have : id ∈ p.findIn box "aie.connect" :=
      List.mem_filter.2 ⟨Program.mem_walkIn_of_mem_children hid, hname⟩
    rw [hnone box hbox] at this
    cases this
  · rw [traces_iff]
    simp [hempty]

/-- One more flow is routed. -/
theorem Program.Routing.step {done : List OpId} {l l' : ChannelLedger} {flow : OpId} {r : Program}
    (h : p.Routing device done l r) (hflows : p.PlainFlows device)
    (hflow : flow ∈ p.findIn device "aie.flow") (hfresh : flow ∉ done)
    (hrun : runOn (routeCircuitFlow device l flow) r = (.ok l', q)) :
    p.Routing device (done ++ [flow]) l' q := by
  obtain ⟨cs, hr⟩ := h.routes
  obtain ⟨hin, hname⟩ := List.mem_filter.1 hflow
  have hleaf : p.children (some flow) = [] := by
    rw [Program.children, Program.block, hflows.leaves flow hflow]
    rfl
  obtain ⟨source, destination, cs', hsource, hdestination, hcircuit, hq⟩ :=
    routeCircuitFlow_ok hr.routable (hr.kept flow hin hfresh)
      (by rw [(hr.op flow hin hfresh).is, hname]) (hr.leaves flow hin hfresh hname hleaf) hrun
  have hsource := endpoint?_of_routes hr hin hfresh (hflows.tiles flow hflow 0 (by decide)) hsource
  have hdestination := endpoint?_of_routes hr hin hfresh (hflows.tiles flow hflow 3 (by decide))
    hdestination
  obtain ⟨hcovers, htraces⟩ := route_traces h.covers
    (hflows.notSide hflow (by decide) hsource) (hflows.notSide hflow (by decide) hdestination)
    (hflows.reach flow hflow _ hsource _ hdestination) hcircuit
  rw [← hq.connections] at hcovers htraces
  refine ⟨⟨_, hr.trans hq⟩, hcovers, fun s d hs => ?_⟩
  rw [htraces s d hs, h.traces s d hs]
  constructor
  · rintro (⟨f, hf, hfs, hfd⟩ | ⟨rfl, rfl⟩)
    · exact ⟨f, List.mem_append_left _ hf, hfs, hfd⟩
    · exact ⟨flow, by simp, hsource, hdestination⟩
  · rintro ⟨f, hf, hfs, hfd⟩
    rcases List.mem_append.1 hf with hf | hf
    · exact .inl ⟨f, hf, hfs, hfd⟩
    · obtain rfl := List.mem_singleton.1 hf
      rw [hsource] at hfs
      rw [hdestination] at hfd
      exact .inr ⟨(Option.some.inj hfs).symm, (Option.some.inj hfd).symm⟩

/-- All flows are routed. -/
theorem Program.Routing.run {l : ChannelLedger} (h : p.Routing device [] (p.channelsOf device) p)
    (hflows : p.PlainFlows device) (hnodup : (p.findIn device "aie.flow").Nodup)
    (hrun : runOn ((p.findIn device "aie.flow").foldlM (routeCircuitFlow device)
      (p.channelsOf device)) p = (.ok l, q)) :
    p.Routing device (p.findIn device "aie.flow") l q := by
  refine foldlM_prefix hnodup hrun h ?_
  intro flow hflow done hfresh l l' r s hr hstep
  exact hr.step hflows hflow hfresh hstep

/-- When the flows of a device have been routed, a stream that starts at no side of a tile arrives
where it does exactly because a flow asked for it. -/
theorem routeCircuitFlows_traces (hp : p.WellFormed) (hdevice : device ∈ p.walk)
    (hvalues : p.definedValues.Nodup) (hflows : p.PlainFlows device)
    (h : runOn (routeCircuitFlows device) p = (.ok (), q)) {source destination : Endpoint}
    (hsource : source.channel.isSide = false) :
    Traces (q.connections device) source destination ↔
      p.Requests device source destination := by
  rw [routeCircuitFlows, get_bind_ok] at h
  obtain ⟨l', r, hrun, h⟩ := bind_ok.1 h
  obtain ⟨-, rfl⟩ := pure_ok.1 h
  have hrouting := (Program.Routing.start hp hdevice hvalues hflows).run hflows
    (hp.nodup_findIn hdevice "aie.flow") hrun
  rw [hrouting.traces source destination hsource]
  rfl

/-- A flow between channels of the tiles of two values. -/
def dmaFlow (result : Option String) (a : String) (i : Int) (b : String) (j : Int) : Operation where
  name := "aie.flow"
  result
  operands := [.value a, .ident "DMA", .int i, .value b, .ident "DMA", .int j]

/-- A device of some family with two tiles and some more. -/
def twoTiles (family : String) (a b : Tile) (rest : Forest Operation) : Program :=
  .ofForest .empty <| .single
    { name := "aie.device", operands := [.ident family], hasRegion := true }
    (.cons { name := "aie.tile", result := some "a", operands := [.int a.column, .int a.row] } .nil
      (.cons { name := "aie.tile", result := some "b", operands := [.int b.column, .int b.row] }
        .nil
        rest))

/-- A device with two tiles, the second of which is two steps above the first, and some flows. -/
def flowProgram (flows : Forest Operation) : Program :=
  twoTiles "ipu" ⟨0, 1⟩ ⟨0, 3⟩ flows

/-- One flow between the two tiles. -/
theorem routeCircuitFlows_traces_upwards :
    ∃ q, runOn (routeCircuitFlows 0) (flowProgram (.single (dmaFlow none "a" 0 "b" 1) .nil)) =
        (.ok (), q) ∧
      (Traces (q.connections 0) ⟨⟨0, 1⟩, ⟨"DMA", 0⟩⟩ ⟨⟨0, 3⟩, ⟨"DMA", 1⟩⟩ ↔
        (flowProgram (.single (dmaFlow none "a" 0 "b" 1) .nil)).Requests 0
          ⟨⟨0, 1⟩, ⟨"DMA", 0⟩⟩ ⟨⟨0, 3⟩, ⟨"DMA", 1⟩⟩) := by
  have hok : (runOn (routeCircuitFlows 0)
      (flowProgram (.single (dmaFlow none "a" 0 "b" 1) .nil))).1.isOk = true := by
    decide +kernel
  rcases h : runOn (routeCircuitFlows 0) (flowProgram (.single (dmaFlow none "a" 0 "b" 1) .nil))
    with ⟨e | ⟨⟩, q⟩
  · rw [h] at hok
    cases hok
  · exact ⟨q, rfl, routeCircuitFlows_traces
      (p := flowProgram (.single (dmaFlow none "a" 0 "b" 1) .nil)) (Program.wellFormed_ofForest _ _)
      (by decide +kernel) (by decide +kernel)
      ⟨by decide +kernel, by decide +kernel, by decide +kernel, by decide +kernel,
        by decide +kernel⟩ h
      (by decide)⟩

/-- The flows of a device the first of which has the name of a tile that is created for the second
one, and that names it in the third. -/
def capturingFlows : Forest Operation :=
  .cons (dmaFlow (some "tile_0_2") "a" 0 "a" 1) .nil
    (.cons (dmaFlow none "a" 2 "b" 3) .nil (.single (dmaFlow none "tile_0_2" 4 "b" 5) .nil))

/-- What the flows become. -/
def capturedProgram : Program :=
  (runOn (routeCircuitFlows 0) (flowProgram capturingFlows)).2

/-- A flow between the first column and the last one that there can be. -/
def farProgram : Program :=
  twoTiles "array" ⟨Integer.least, 2⟩ ⟨Integer.greatest, 2⟩
    (.single (dmaFlow none "a" 0 "b" 1) .nil)

/-- What the flow becomes. -/
def routedFarProgram : Program :=
  (runOn (routeCircuitFlows 0) farProgram).2

/-- The flow leaves its tile to the east, where it is lost. -/
theorem not_traces_routedFarProgram (d : Endpoint) :
    ¬ Traces (routedFarProgram.connections 0) ⟨⟨Integer.least, 2⟩, ⟨"DMA", 0⟩⟩ d := by
  have hall : ∀ box ∈ routedFarProgram.findIn 0 "aie.switchbox",
      ∀ tile ∈ routedFarProgram.switchboxTile? box, ∀ id ∈ routedFarProgram.children (some box),
      ∀ ends ∈ (routedFarProgram.op id).channels?, (⟨tile, ends.1, ends.2⟩ : Connection) ∈
        [(⟨⟨Integer.least, 2⟩, ⟨"DMA", 0⟩, ⟨"East", 0⟩⟩ : Connection),
          ⟨⟨Integer.greatest, 2⟩, ⟨"West", 0⟩, ⟨"DMA", 1⟩⟩] := by
    decide +kernel
  have hmem : ∀ c, routedFarProgram.connections 0 c →
      c = ⟨⟨Integer.least, 2⟩, ⟨"DMA", 0⟩, ⟨"East", 0⟩⟩ ∨
        c = ⟨⟨Integer.greatest, 2⟩, ⟨"West", 0⟩, ⟨"DMA", 1⟩⟩ := by
    rintro ⟨tile, input, output⟩ ⟨box, hbox, htile, id, hid, -, hends⟩
    simpa using hall box hbox tile htile id hid _ hends
  have hdead : ∀ e, ¬ Traces (routedFarProgram.connections 0)
      ⟨⟨Integer.least + 1, 2⟩, ⟨"West", 0⟩⟩ e := by
    intro e h
    generalize hs : (⟨⟨Integer.least + 1, 2⟩, ⟨"West", 0⟩⟩ : Endpoint) = s at h
    cases h with
    | arrive hc => rcases hmem _ hc with rfl | rfl <;> exact absurd hs (by decide)
    | hop hc => rcases hmem _ hc with rfl | rfl <;> exact absurd hs (by decide)
  intro h
  generalize hs : (⟨⟨Integer.least, 2⟩, ⟨"DMA", 0⟩⟩ : Endpoint) = s at h
  cases h with
  | arrive hc hnext =>
      rcases hmem _ hc with rfl | rfl
      · exact absurd hnext (by decide)
      · exact absurd hs (by decide)
  | hop hc hnext h =>
      rcases hmem _ hc with rfl | rfl
      · cases hnext
        exact hdead _ h
      · exact absurd hs (by decide)

/-- A stream that starts at a side of a tile on the way of a circuit arrives where the circuit ends,
and a flow whose value names no tile at first may be routed from one that is created meanwhile. A
flow to a tile out of reach arrives nowhere. -/
theorem routeCircuitFlows_traces_unrequested :
    (flowProgram capturingFlows).definedValues.Nodup ∧
    (flowProgram capturingFlows).findIn 0 "aie.connect" = [] ∧
    (∀ flow ∈ (flowProgram capturingFlows).findIn 0 "aie.flow",
      (flowProgram capturingFlows).below flow = .nil ∧ ∀ i ∈ [1, 4],
        ∀ bundle ∈ ((flowProgram capturingFlows).op flow).operandText? i,
          Direction.ofName? bundle = none) ∧
    (runOn (routeCircuitFlows 0) (flowProgram capturingFlows)).1.isOk = true ∧
    (Traces (capturedProgram.connections 0) ⟨⟨0, 3⟩, ⟨"South", 0⟩⟩ ⟨⟨0, 3⟩, ⟨"DMA", 3⟩⟩ ∧
      ¬(flowProgram capturingFlows).Requests 0 ⟨⟨0, 3⟩, ⟨"South", 0⟩⟩ ⟨⟨0, 3⟩, ⟨"DMA", 3⟩⟩) ∧
    (Traces (capturedProgram.connections 0) ⟨⟨0, 2⟩, ⟨"DMA", 4⟩⟩ ⟨⟨0, 3⟩, ⟨"DMA", 5⟩⟩ ∧
      ¬(flowProgram capturingFlows).Requests 0 ⟨⟨0, 2⟩, ⟨"DMA", 4⟩⟩ ⟨⟨0, 3⟩, ⟨"DMA", 5⟩⟩) ∧
    (runOn (routeCircuitFlows 0) farProgram).1.isOk = true ∧
    farProgram.Requests 0 ⟨⟨Integer.least, 2⟩, ⟨"DMA", 0⟩⟩ ⟨⟨Integer.greatest, 2⟩, ⟨"DMA", 1⟩⟩ ∧
    ¬ Traces (routedFarProgram.connections 0) ⟨⟨Integer.least, 2⟩, ⟨"DMA", 0⟩⟩
      ⟨⟨Integer.greatest, 2⟩, ⟨"DMA", 1⟩⟩ := by
  have harrive : capturedProgram.connections 0 ⟨⟨0, 3⟩, ⟨"South", 0⟩, ⟨"DMA", 3⟩⟩ :=
    ⟨12, by decide +kernel, by decide +kernel, 13, by decide +kernel⟩
  have hhop : capturedProgram.connections 0 ⟨⟨0, 2⟩, ⟨"DMA", 4⟩, ⟨"North", 1⟩⟩ :=
    ⟨10, by decide +kernel, by decide +kernel, 14, by decide +kernel⟩
  have hend : capturedProgram.connections 0 ⟨⟨0, 3⟩, ⟨"South", 1⟩, ⟨"DMA", 5⟩⟩ :=
    ⟨12, by decide +kernel, by decide +kernel, 15, by decide +kernel⟩
  have hrequests : ∀ source destination : Endpoint, source.tile ≠ ⟨0, 1⟩ →
      ¬(flowProgram capturingFlows).Requests 0 source destination := by
    rintro source destination hsource ⟨flow, hflow, hs, -⟩
    have : ∀ flow ∈ (flowProgram capturingFlows).findIn 0 "aie.flow",
        ∀ e ∈ (flowProgram capturingFlows).endpoint? ((flowProgram capturingFlows).op flow) 0,
          e.tile = ⟨0, 1⟩ := by
      decide +kernel
    exact hsource (this flow hflow source hs)
  refine ⟨by decide +kernel, by decide +kernel, by decide +kernel, by decide +kernel,
    ⟨.arrive harrive rfl, hrequests _ _ (by decide)⟩,
    ⟨.hop hhop rfl (.arrive hend rfl), hrequests _ _ (by decide)⟩, by decide +kernel,
    ⟨3, by decide +kernel⟩, not_traces_routedFarProgram _⟩

end TileFlow
