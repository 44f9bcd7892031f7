import TileFlow.Proofs.Fifo.Legible
import TileFlow.Proofs.Routing.Path

/-!
# What broadcasts, multicasts and packets become can be loaded

The packet flows of a broadcast and the flows of a multicast stand before it and use the values of
its tree. Nothing in such a tree defines a value, so these are known at its root already.

A packet flow becomes rules in the switchboxes along its paths. A tile that has no value gets one at
the top of the device, before all that is in it, and its name is made of its coordinates: these are
between those of the two ends, so that they are not negative.

## Main definitions

* `Tile.IsNamed`: the tiles whose coordinates can be part of a name.

## Main results

* `Program.Legible.knownAt_of_interval`: what a tree uses that defines nothing.
* `tileValue_legible`: the value of a tile.
* `lowerBroadcasts_legible`, `lowerMulticasts_legible`, `routePacketFlows_legible`: the stages.
-/

namespace TileFlow

open TileFlow.Action Source

variable {p q : Program} {id x device flow broadcast multicast : OpId}

/-- The identifiers that routing writes. -/
def routingIdents : List String :=
  ["aie.packet_flow", "aie.packet_source", "aie.packet_dest", "aie.flow", "aie.tile",
    "aie.switchbox", "aie.packet_rule", "id", "North", "South", "East", "West"]

/-- The identifiers of routing can be written. -/
theorem isLexeme_of_mem_routingIdents : ∀ s ∈ routingIdents, Token.IsLexeme (.ident s) := by
  decide +kernel

/-! ### What is used by what is replaced -/

/-- What is used below an operation that may be erased is known at that one: nothing between them
defines a value. -/
theorem Program.Legible.knownAt_of_interval {a : OpId} {v : String} (hp : p.Legible)
    (ha : a ∈ p.walk) (hname : (p.op a).name ∈ discardedNames) (hx : x ∈ p.interval a)
    (hv : .value v ∈ (p.op x).operands) : p.KnownAt a v := by
  rw [Program.interval, List.mem_cons] at hx
  rcases hx with rfl | hx
  · exact hp.scope x ha v hv
  · refine ((hp.scope x (hp.sound.mem_walk_of_walkIn ha hx) v hv).of_walkIn hp.sound ha
      hx).resolve_right ?_
    rintro ⟨d, hd, hdv⟩
    rw [hp.barren a ha hname d hd] at hdv
    cases hdv

/-- The end of a stream can be written as that of another kind of stream. -/
theorem Operation.IsLegible.endpoint {op : Operation} {name : String} (h : op.IsLegible)
    (hop : op.name ∈ endpointNames) (hlex : Token.IsLexeme (.ident name))
    (hname : name ∈ endpointNames) : IsLegible { name, operands := op.operands } where
  name := hlex
  result _ hv := by cases hv
  operands := h.operands
  attributes _ he := absurd he List.not_mem_nil
  fifo his := by
    have hnot : ∀ name ∈ endpointNames, name ≠ "aie.objectfifo" := by decide
    exact absurd (beq_iff_eq.1 his) (hnot name hname)
  bundle _ s hs := h.bundle hop s hs
  tile his := by
    have hnot : ∀ name ∈ endpointNames, name ≠ "aie.tile" := by decide
    exact absurd (beq_iff_eq.1 his) (hnot name hname)

/-! ### Broadcasts -/

/-- One end of a stream is put below a packet flow at which its values are known. -/
theorem appendEnd_legible {name : String} (hp : p.Legible) (hx : x < p.slots.size)
    (hend : (p.op x).name ∈ endpointNames) (hname : name ∈ endpointNames)
    (hlex : Token.IsLexeme (.ident name))
    (hknown : ∀ v, .value v ∈ (p.op x).operands → p.KnownAt flow v)
    (hcreates : EditRule.broadcasts.creates p (some flow) { name, operands := (p.op x).operands })
    (h : runOn (Action.append flow { name, operands := (p.op x).operands }) p = (.ok id, q)) :
    p.Extends .broadcasts q :=
  (hp.append_ok h (append_edits h hcreates (Program.fresh_of_none rfl))
    ((hp.legible x hx).endpoint hend hlex hname) rfl fun _ v hv => .inl (hknown v hv)).1.toExtends

/-- The packet flow of a group of a broadcast uses what is known at the broadcast. -/
theorem insertPacketFlow_legible {group : OpId} (hp : p.Legible) (hbody : broadcast ∈ p.walk)
    (his : (p.op broadcast).is "aiex.broadcast_packet" = true) (hgroup : group ∈ p.walkIn broadcast)
    (h : runOn (insertPacketFlow broadcast (p.op broadcast).operands group) p = (.ok (), q)) :
    p.Extends .broadcasts q := by
  rw [insertPacketFlow, get_bind_ok] at h
  obtain ⟨n, hn, h⟩ := orFail_bind_ok.1 h
  obtain ⟨flow, r, hflow, h⟩ := bind_ok.1 h
  obtain ⟨_, s, hsource, hloop⟩ := bind_ok.1 h
  have hfits := (hp.of_walk (hp.sound.mem_walk_of_walkIn hbody hgroup)).operandInt? hn
  have hedits : p.Edits .broadcasts r :=
    insertBefore_edits hflow (fun _ => ⟨rfl, .inl rfl⟩) (Program.fresh_of_none rfl)
  obtain ⟨hr, hbefore⟩ := hp.insertBefore_ok hbody hflow hedits
    (Operation.isLegible_of_operands true
      (isLexeme_of_mem_routingIdents _ (by simp [routingIdents])) (by decide) fun a ha => by
      rw [List.mem_singleton.1 ha]
      exact (Attribute.isWritten_int hfits).operand)
    (fun v hv => by simp at hv) (Program.fresh_of_none rfl) fun hne => absurd rfl hne
  have hnames : (p.op broadcast).name ∈ endpointNames ∧ (p.op broadcast).name ∈ discardedNames :=
    beq_iff_eq.1 his ▸ by decide
  -- What the broadcast and its destinations use is known at the packet flow.
  have hends : ∀ t, r.Extends .broadcasts t → ∀ y ∈ p.interval broadcast,
      (p.op y).SameHeader (t.op y) ∧ y < t.slots.size ∧
        ∀ v, .value v ∈ (t.op y).operands → t.KnownAt flow v := fun t ht y hy => by
    have hall := hr.toExtends.trans ht
    have hywalk : y ∈ p.walk := by
      rcases List.mem_cons.1 hy with rfl | hy
      · exact hbody
      · exact hp.sound.mem_walk_of_walkIn hbody hy
    have hlt := hp.sound.created y hywalk
    have hheader := hall.edits.sameHeader hp.sound (fun _ _ _ hop => hop) hlt
    refine ⟨hheader, hall.legible.sound.created y (hall.kept y hywalk), fun v hv => ?_⟩
    have hknown := hp.knownAt_of_interval hbody hnames.2 hy (hheader.operands ▸ hv)
    exact (hr.known hp.sound EditRule.broadcasts_keepsValues hknown).extends
      EditRule.broadcasts_keepsValues hr.legible hbefore.left_mem ht
  obtain ⟨hsame, hlt, hknown⟩ := hends r (.refl hr.legible) broadcast List.mem_cons_self
  rw [← hsame.operands] at hsource
  have hs : r.Extends .broadcasts s := appendEnd_legible hr.legible hlt (hsame.name ▸ hnames.1)
    (by decide) (isLexeme_of_mem_routingIdents _ (by simp [routingIdents])) hknown
    ⟨rfl, .inr (.inl rfl)⟩ hsource
  refine hr.toExtends.trans (hs.trans (.forM hs.legible hloop
    fun operands hoperands t u ht hrun => ?_))
  obtain ⟨d, hd, rfl⟩ := List.mem_map.1 hoperands
  obtain ⟨hin, hdest⟩ := List.mem_filter.1 hd
  obtain ⟨_, u, happend, hpure⟩ := bind_ok.1 hrun
  obtain ⟨-, rfl⟩ := pure_ok.1 hpure
  obtain ⟨hsame, hlt, hknown⟩ := hends t (hs.trans ht) d
    (List.mem_cons_of_mem _ (hp.sound.walkIn_trans hbody hgroup hin))
  rw [← hsame.operands] at happend
  exact appendEnd_legible ht.legible hlt (hsame.name ▸ beq_iff_eq.1 hdest ▸ by decide) (by decide)
    (isLexeme_of_mem_routingIdents _ (by simp [routingIdents])) hknown
    ⟨rfl, .inr (.inr ⟨rfl, d, hlt, hsame.is _ ▸ hdest, rfl⟩)⟩ happend

/-- A broadcast becomes packet flows that can be loaded. -/
theorem lowerBroadcast_legible (hp : p.Legible) (hbody : broadcast ∈ p.walk)
    (his : (p.op broadcast).is "aiex.broadcast_packet" = true)
    (h : runOn (lowerBroadcast broadcast) p = (.ok (), q)) :
    ∃ r, p.Extends .broadcasts r ∧ q = r.erase broadcast := by
  rw [lowerBroadcast] at h
  obtain ⟨source, s, hsource, h⟩ := bind_ok.1 h
  obtain ⟨rfl, rfl⟩ := sourceOperands_ok hsource
  rw [get_bind_ok] at h
  obtain ⟨_, r, hloop, h⟩ := bind_ok.1 h
  refine ⟨r, .forM hp hloop fun group hgroup s t hs hrun => ?_, by simpa [eq_comm] using h⟩
  have hlt := hp.sound.created broadcast hbody
  have hin := (List.mem_filter.1 hgroup).1
  have hheader := hs.edits.sameHeader hp.sound (fun _ _ _ hop => hop) hlt
  rw [← hheader.operands] at hrun
  exact insertPacketFlow_legible hs.legible (hs.kept broadcast hbody) (hheader.is _ ▸ his)
    (((hs.edits.evolves hp.sound).mem_walkIn_iff hp.sound hs.kept hbody
      (hp.sound.lt_size_of_walkIn hin)).2 hin) hrun

/-- The lowering of broadcasts keeps a program legible. -/
theorem lowerBroadcasts_legible (hp : p.Legible)
    (hhides : p.HidesNone discardedNames ["aiex.broadcast_packet"])
    (h : runOn Stage.broadcastPackets.action p = (.ok (), q)) : q.Legible :=
  (Stage.legible_replace (J := fun _ => True) EditRule.broadcasts_sparesDevices
    EditRule.broadcasts_dissolves EditRule.broadcasts_keepsValues (by decide) hp trivial h
    fun _ _ _ _ hr _ _ _ _ his _ hbody hrun => by
      obtain ⟨t, ht, rfl⟩ := lowerBroadcast_legible hr (hbody hhides) his hrun
      exact ⟨t, ht, rfl, trivial⟩).1

/-! ### Multicasts -/

/-- A multicast becomes flows that can be loaded. -/
theorem lowerMulticast_legible (hp : p.Legible) (hbody : multicast ∈ p.walk)
    (his : (p.op multicast).is "aiex.multicast" = true)
    (h : runOn (lowerMulticast multicast) p = (.ok (), q)) :
    ∃ r, p.Extends .multicasts r ∧ q = r.erase multicast := by
  rw [lowerMulticast] at h
  obtain ⟨source, s, hsource, h⟩ := bind_ok.1 h
  obtain ⟨rfl, rfl⟩ := sourceOperands_ok hsource
  rw [get_bind_ok] at h
  obtain ⟨_, r, hloop, h⟩ := bind_ok.1 h
  refine ⟨r, .forM hp hloop fun destination hdestination s t hs hrun => ?_,
    by simpa [eq_comm] using h⟩
  obtain ⟨d, hd, rfl⟩ := List.mem_map.1 hdestination
  obtain ⟨hin, -⟩ := List.mem_filter.1 hd
  obtain ⟨_, t, hinsert, hpure⟩ := bind_ok.1 hrun
  obtain ⟨-, rfl⟩ := pure_ok.1 hpure
  have hname : (p.op multicast).name ∈ discardedNames := beq_iff_eq.1 his ▸ by decide
  have hknown : ∀ x ∈ p.interval multicast, ∀ v, .value v ∈ (p.op x).operands →
      s.KnownAt multicast v := fun x hx v hv =>
    (hp.knownAt_of_interval hbody hname hx hv).extends EditRule.multicasts_keepsValues hp hbody hs
  have hedits : s.Edits .multicasts t :=
    insertBefore_edits hinsert (fun _ => ⟨rfl, rfl⟩) (Program.fresh_of_none rfl)
  refine (hs.legible.insertBefore_ok (hs.kept multicast hbody) hinsert hedits
    (Operation.isLegible_of_operands false
      (isLexeme_of_mem_routingIdents _ (by simp [routingIdents])) (by decide) fun a ha => ?_)
    (fun v hv => ?_) (Program.fresh_of_none rfl) fun hne => absurd rfl hne).1.toExtends
  · rcases List.mem_append.1 ha with ha | ha
    · exact (hp.of_walk hbody).operands a ha
    · exact (hp.of_walk (hp.sound.mem_walk_of_walkIn hbody hin)).operands a ha
  · rcases List.mem_append.1 hv with hv | hv
    · exact hknown multicast List.mem_cons_self v hv
    · exact hknown d (List.mem_cons_of_mem _ hin) v hv

/-- The lowering of multicasts keeps a program legible. -/
theorem lowerMulticasts_legible (hp : p.Legible)
    (hhides : p.HidesNone discardedNames ["aiex.multicast"])
    (h : runOn Stage.lowerMulticast.action p = (.ok (), q)) : q.Legible :=
  (Stage.legible_replace (J := fun _ => True) EditRule.multicasts_sparesDevices
    EditRule.multicasts_dissolves EditRule.multicasts_keepsValues (by decide) hp trivial h
    fun _ _ _ _ hr _ _ _ _ his _ hbody hrun => by
      obtain ⟨t, ht, rfl⟩ := lowerMulticast_legible hr (hbody hhides) his hrun
      exact ⟨t, ht, rfl, trivial⟩).1

/-! ### Packets -/

/-- Whether the coordinates of a tile can be written, and be part of the name of a value. -/
def Tile.IsNamed (t : Tile) : Prop :=
  (0 ≤ t.column ∧ Integer.Fits t.column) ∧ 0 ≤ t.row ∧ Integer.Fits t.row

/-- Whether a channel can be written. -/
def Channel.IsWritten (c : Channel) : Prop :=
  Token.IsLexeme (.ident c.bundle) ∧ Integer.Fits c.index

/-- The tiles on a path are between the first one and the last one. -/
theorem Tile.IsNamed.of_mem_pathTo {a b t : Tile} (ha : a.IsNamed) (hb : b.IsNamed)
    (h : t ∈ a.pathTo b) : t.IsNamed := by
  simp only [IsNamed, Integer.Fits] at ha hb ⊢
  have hreach : a.InReach b := by
    constructor <;> simp only [Integer.Fits] <;> omega
  have hbetween := Tile.mem_pathTo hreach h
  omega

/-- A channel towards a neighbour can be written. -/
theorem Direction.isWritten_channel (d : Direction) : Channel.IsWritten ⟨d.name, 0⟩ :=
  ⟨by cases d <;> exact isLexeme_of_mem_routingIdents _ (by simp [routingIdents, name]),
    (by decide : Integer.Fits 0)⟩

/-- The name that is made for a tile can be that of a value. -/
theorem Tile.IsNamed.isLexeme {t : Tile} (h : t.IsNamed) :
    Token.IsLexeme (.value s!"tile_{t.column}_{t.row}") := by
  obtain ⟨⟨hcolumn, -⟩, hrow, -⟩ := h
  obtain ⟨m, hm⟩ := Int.eq_ofNat_of_zero_le hcolumn
  obtain ⟨n, hn⟩ := Int.eq_ofNat_of_zero_le hrow
  rw [hm, hn]
  have hdigits : ∀ k : Nat, ∀ c ∈ (toString (k : Int)).toList, isWordChar c = true :=
    fun k c hc => isWordChar_of_mem_repr hc
  exact Token.isLexeme_value_append (Token.isLexeme_value_append
    (Token.isLexeme_value_append (by decide : Token.IsLexeme (.value "tile_")) (hdigits m))
    (List.all_eq_true.1 (by decide : "_".toList.all isWordChar = true))) (hdigits n)

/-- The tile and the channel that describe the end of a stream can be written. -/
theorem Program.Legible.endpoint? {e : Endpoint} (hp : p.Legible) (hx : x < p.slots.size)
    (hname : (p.op x).name ∈ endpointNames) (h : p.endpoint? (p.op x) 0 = some e) :
    e.tile.IsNamed ∧ e.channel.IsWritten := by
  rw [Program.endpoint?] at h
  split at h
  · rename_i tile bundle index htile hbundle hindex
    cases h
    have hop := hp.legible x hx
    obtain ⟨v, -, hv⟩ := Option.bind_eq_some_iff.1 htile
    obtain ⟨d, hdef, his, hd⟩ := Program.tileOf?_eq_some.1 hv
    obtain ⟨hcolumn, hrow⟩ := hp.tileOf?_fits hv
    obtain ⟨hcolumn', hrow'⟩ :=
      (hp.of_walk (Program.mem_walk_of_definingOp? hdef).1).tile his tile hd
    exact ⟨⟨⟨hcolumn', hcolumn⟩, hrow', hrow⟩, hop.bundle hname _ hbundle, hop.operandInt? hindex⟩
  · cases h

/-- A new tile can be written. -/
theorem Tile.IsNamed.isLegible {t : Tile} {value : String} (h : t.IsNamed)
    (hvalue : Token.IsLexeme (.value value)) : Operation.IsLegible
      { name := "aie.tile", result := some value, operands := [.int t.column, .int t.row] } where
  name := isLexeme_of_mem_routingIdents _ (by simp [routingIdents])
  result _ hv := by
    cases hv
    exact hvalue
  operands a ha := by
    simp only [List.mem_cons, List.not_mem_nil, or_false] at ha
    rcases ha with rfl | rfl
    · exact (Attribute.isWritten_int h.1.2).operand
    · exact (Attribute.isWritten_int h.2.2).operand
  attributes _ he := absurd he List.not_mem_nil
  fifo his := absurd his (by simp [Operation.is])
  bundle hname := absurd hname (by decide : "aie.tile" ∉ endpointNames)
  tile _ u hu := by
    obtain rfl : t = u := Option.some.inj hu
    exact ⟨h.1.1, h.2.1⟩

/-- A device is at the top, and it is not erased. -/
theorem Program.Legible.shown_of_mem_devices (hp : p.Legible) (hdevice : device ∈ p.devices)
    (hx : x ∈ p.walk) (hname : (p.op x).name ∈ discardedNames) :
    device ≠ x ∧ device ∉ p.walkIn x := by
  obtain ⟨hroot, his⟩ := Program.mem_devices.1 hdevice
  obtain ⟨g, hg, hbelow⟩ := Program.exists_below hx
  refine ⟨?_, fun hin => ?_⟩
  · rintro rfl
    rw [beq_iff_eq.1 his] at hname
    exact absurd hname (by decide)
  · rw [Program.walkIn, hbelow] at hin
    exact hp.sound.distinct.notMem_roots_of_below hg hin hroot

/-- A new tile may be put at the top of a device. -/
theorem Tile.IsNamed.insertAt {t : Tile} {value : String} (h : t.IsNamed) (hp : p.Legible)
    (hdevice : device ∈ p.devices) (hvalue : Token.IsLexeme (.value value))
    (hfresh : value ∉ p.definedValues) :
    (p.insertAt (some device) 0
      { name := "aie.tile", result := some value,
        operands := [.int t.column, .int t.row] }).2.Legible :=
  hp.insertAt (h.isLegible hvalue) (fun _ v hv => by simp at hv)
    (fun _ hv => Option.some.inj hv ▸ hfresh)
    fun _ => ⟨by simp [discardedNames, erasedNames], fun _ ha _ hx hname =>
      Option.some.inj ha ▸ hp.shown_of_mem_devices hdevice hx hname⟩

/-- The value of a tile is defined in its device, be the tile new or not. -/
theorem tileValue_legible {tile : Tile} {value : String} (hp : p.Legible)
    (hdevice : device ∈ p.devices) (htile : tile.IsNamed)
    (h : runOn (tileValue device tile) p = (.ok value, q)) :
    p.Extends .packets q ∧ ∃ d ∈ q.interval device, (q.op d).result = some value := by
  have hwalk := Program.mem_walk_of_mem_devices hdevice
  have hedits : p.Edits .packets q :=
    tileValue_edits (fun _ his _ => .inl ⟨his, device, hdevice, rfl⟩) h
  rw [tileValue, get_bind_ok] at h
  split at h
  · rename_i found hfound
    obtain ⟨rfl, rfl⟩ := pure_ok.1 h
    obtain ⟨d, hd, hresult⟩ := Option.bind_eq_some_iff.1 hfound
    have hin := (List.mem_filter.1 (List.mem_of_find?_eq_some hd)).1
    exact ⟨.refl hp, d, List.mem_cons_of_mem _ hin, hresult⟩
  · dsimp only at h
    obtain ⟨_, r, hprepend, h⟩ := bind_ok.1 h
    rw [runOn_prepend, Prod.mk.injEq] at hprepend
    obtain ⟨-, rfl⟩ := hprepend
    obtain ⟨rfl, rfl⟩ := pure_ok.1 h
    have hnew := Program.created_insertAt hp.sound (some device) 0
      { name := "aie.tile"
        result := some (p.freshValue s!"tile_{tile.column}_{tile.row}")
        operands := [.int tile.column, .int tile.row] }
    have hlegible := htile.insertAt hp hdevice (p.isLexeme_freshValue htile.isLexeme)
      (p.freshValue_notMem _)
    exact ⟨⟨hedits, hlegible, fun y hy => (hnew.walk y).2 (.inl hy)⟩, p.slots.size,
      List.mem_cons_of_mem _
        ((hnew.walkIn device hwalk _).2 (.inr ⟨rfl, device, rfl, .inl rfl⟩)), hnew.header.result⟩

/-- A switchbox at the end of a device may use the tiles of the device. -/
theorem switchboxFor_legible {tile : Tile} {box : OpId} (hp : p.Legible)
    (hdevice : device ∈ p.devices) (htile : tile.IsNamed)
    (h : runOn (switchboxFor device tile) p = (.ok box, q)) : p.Extends .packets q := by
  rw [switchboxFor, get_bind_ok] at h
  split at h
  · obtain ⟨-, rfl⟩ := pure_ok.1 h
    exact .refl hp
  · obtain ⟨value, r, hvalue, h⟩ := bind_ok.1 h
    obtain ⟨hr, d, hd, hresult⟩ := tileValue_legible hp hdevice htile hvalue
    have hwalk := Program.mem_walk_of_mem_devices hdevice
    obtain ⟨id, hid, hidresult, his, hidtile⟩ := tileValue_isTile hp.sound hwalk hvalue
    have hedits : r.Edits .packets q := append_edits h
      (.inr (.inl ⟨⟨rfl, value, id, rfl, hid, hidresult, his, by rw [hidtile]; rfl⟩, rfl⟩))
      (Program.fresh_of_none rfl)
    refine hr.trans (hr.legible.append_ok h hedits
      (Operation.isLegible_of_operands true
        (isLexeme_of_mem_routingIdents _ (by simp [routingIdents])) (by decide) fun a ha => ?_)
      rfl fun _ v hv => ?_).1.toExtends
    · rw [List.mem_singleton.1 ha]
      exact Attribute.isWrittenOperand_value ((hr.legible.of_walk hid).result _ hidresult)
    · cases List.mem_singleton.1 hv
      exact .inr ⟨d, hd, hresult⟩

/-- A rule of channels that can be written. -/
theorem packetRule_isLegible {n : Int} {input output : Channel} (hn : Integer.Fits n)
    (hinput : input.IsWritten) (houtput : output.IsWritten) :
    (packetRule n input output).IsLegible := by
  have hrule : (connection "aie.packet_rule" input output).IsLegible :=
    Operation.isLegible_of_operands false
      (isLexeme_of_mem_routingIdents _ (by simp [routingIdents])) (by decide) fun a ha => by
      simp only [List.mem_cons, List.not_mem_nil, or_false] at ha
      rcases ha with rfl | rfl | rfl | rfl
      · exact (Attribute.isWritten_ident hinput.1).operand
      · exact (Attribute.isWritten_int hinput.2).operand
      · exact (Attribute.isWritten_ident houtput.1).operand
      · exact (Attribute.isWritten_int houtput.2).operand
  exact ⟨hrule.toIsWritten.withAttr (isLexeme_of_mem_routingIdents _ (by simp [routingIdents]))
    (Attribute.isWritten_int hn), hrule.toGivesNames.withAttr (by decide)⟩

/-- A rule uses no values, wherever it is put. -/
theorem addOnce_legible {n : Int} {input output : Channel} {box : OpId} (hp : p.Legible)
    (hn : Integer.Fits n) (hinput : input.IsWritten) (houtput : output.IsWritten)
    (hcreates : EditRule.packets.creates p (some box) (packetRule n input output))
    (h : runOn (addOnce box (packetRule n input output)) p = (.ok (), q)) :
    p.Extends .packets q := by
  have hedits := addOnce_edits hcreates rfl h
  rw [addOnce, get_bind_ok] at h
  dsimp only at h
  split at h
  · obtain ⟨-, rfl⟩ := pure_ok.1 h
    exact .refl hp
  · obtain ⟨_, r, happend, h⟩ := bind_ok.1 h
    obtain ⟨-, rfl⟩ := pure_ok.1 h
    exact (hp.append_ok happend hedits (packetRule_isLegible hn hinput houtput) rfl fun _ v hv => by
      simp [packetRule, connection, Operation.withAttr] at hv).1.toExtends

/-- The rules along a path. -/
theorem layPackets_legible {n : Int} {input output : Channel} {path : List Tile} (hp : p.Legible)
    (hdevice : device ∈ p.devices) (hn : Integer.Fits n) (hpath : ∀ t ∈ path, t.IsNamed)
    (hinput : input.IsWritten) (houtput : output.IsWritten)
    (hd : ∃ d < p.slots.size, (p.op d).IsDestination output.bundle)
    (h : runOn (layPackets device n output input path) p = (.ok (), q)) : p.Extends .packets q := by
  induction path generalizing p input with
  | nil =>
      rw [layPackets] at h
      obtain ⟨-, rfl⟩ := pure_ok.1 h
      exact .refl hp
  | cons tile path ih =>
      obtain ⟨htile, hpath⟩ := List.forall_mem_cons.1 hpath
      cases path with
      | nil =>
          rw [layPackets] at h
          obtain ⟨box, r, hbox, hadd⟩ := bind_ok.1 h
          have hr := switchboxFor_legible hp hdevice htile hbox
          exact hr.trans (addOnce_legible hr.legible hn hinput houtput
            (.inr (.inr ⟨n, input, output, rfl, .inr (hr.edits.destination hp.sound hd)⟩)) hadd)
      | cons next rest =>
          rw [layPackets] at h
          obtain ⟨box, r, hbox, h⟩ := bind_ok.1 h
          obtain ⟨_, s, hadd, hlay⟩ := bind_ok.1 h
          have hr := switchboxFor_legible hp hdevice htile hbox
          have hs := hr.trans (addOnce_legible hr.legible hn hinput
            (Direction.isWritten_channel _) (.inr (.inr ⟨n, input, _, rfl, .inl rfl⟩)) hadd)
          exact hs.trans (ih hs.legible
            ((hs.edits.mem_devices EditRule.packets_sparesDevices hp.sound).2 hdevice) hpath
            (Direction.isWritten_channel _) (hs.edits.destination hp.sound hd) hlay)

/-- A packet flow becomes rules that can be loaded. -/
theorem routePacketFlow_legible (hp : p.Legible) (hdevice : device ∈ p.devices)
    (hflow : flow < p.slots.size) (h : runOn (routePacketFlow device flow) p = (.ok (), q)) :
    ∃ r, p.Extends .packets r ∧ q = r.erase flow := by
  obtain ⟨n, a, source, destinations, r, hn, hsingle, hsource, hdestinations, -, hloop, rfl⟩ :=
    routePacketFlow_parts h
  have hends : ∀ {name x} {e : Endpoint}, name ∈ endpointNames → x ∈ p.findIn flow name →
      p.endpoint? (p.op x) 0 = some e → x < p.slots.size ∧ e.tile.IsNamed ∧ e.channel.IsWritten :=
    fun hname hx he => by
      obtain ⟨hin, his⟩ := List.mem_filter.1 hx
      have hlt := hp.sound.lt_size_of_walkIn hin
      exact ⟨hlt, hp.endpoint? hlt (beq_iff_eq.1 his ▸ hname) he⟩
  obtain ⟨-, hsourceTile, hsourceChannel⟩ :=
    hends (by decide) (hsingle ▸ List.mem_singleton_self a) hsource
  refine ⟨r, .forM hp hloop fun destination hmem s t hs hround => ?_, rfl⟩
  obtain ⟨_, s', hcheck, hlay⟩ := bind_ok.1 hround
  obtain rfl := checkInside_ok hcheck
  obtain ⟨d, hd, hend⟩ := (mem_iff_of_map_eq hdestinations).1 hmem
  obtain ⟨hlt, htile, hchannel⟩ := hends (by decide) hd hend
  exact layPackets_legible hs.legible
    ((hs.edits.mem_devices EditRule.packets_sparesDevices hp.sound).2 hdevice)
    ((hp.legible flow hflow).operandInt? hn)
    (fun _ ht => hsourceTile.of_mem_pathTo htile ht) hsourceChannel hchannel
    (hs.edits.destination hp.sound
      ⟨d, hlt, (List.mem_filter.1 hd).2, operandText?_of_endpoint? hend⟩) hlay

/-- The routing of packets keeps a program legible. -/
theorem routePacketFlows_legible (hp : p.Legible)
    (h : runOn Stage.routePacketFlows.action p = (.ok (), q)) : q.Legible :=
  (Stage.legible_replace (J := fun _ => True) EditRule.packets_sparesDevices
    EditRule.packets_dissolves EditRule.packets_keepsValues (by decide) hp trivial h
    fun _ _ _ _ hr _ _ hdevice hlt _ _ _ hrun => by
      obtain ⟨t, ht, rfl⟩ := routePacketFlow_legible hr hdevice hlt hrun
      exact ⟨t, ht, rfl, trivial⟩).1

end TileFlow
