import TileFlow.Proofs.Program.Graft
import TileFlow.Proofs.Routing.FanOut
import TileFlow.Proofs.Source.Written
import TileFlow.Proofs.Stage.Orderly

/-!
# Broadcast and multicast in place

A broadcast is expanded by putting packet flows before it, and a multicast by putting flows before
it, while the list of those to expand was made before the first of them was. The tree of the program
is in the end the one of before, with the packet flows or the flows where each broadcast or
multicast was that was below no other one, in the order in which the groups or destinations are
below it.

## Main definitions

* `packetFlowTree`: a packet flow with its source and its destinations.
* `Program.packetFlows`, `Program.circuitFlows`: what takes the place of a broadcast, or a
  multicast.

## Main results

* `fanOut_contents`: the tree after the broadcasts, or the multicasts, are expanded.
-/

namespace TileFlow

open TileFlow.Action

variable {p q r s : Program} {device x g : OpId}

/-! ### What takes the place -/

/-- Some trees, one behind the other. -/
def Forest.concat {α : Type} (fs : List (Forest α)) : Forest α :=
  fs.foldr (· ++ ·) .nil

@[simp] theorem Forest.concat_cons {α : Type} (f : Forest α) (fs : List (Forest α)) :
    concat (f :: fs) = f ++ concat fs := rfl

/-- A packet flow with an identifier, its source and its destinations. -/
def packetFlowTree (id : Int) (source : List Attribute) (destinations : List (List Attribute)) :
    Forest Operation :=
  .single { name := "aie.packet_flow", operands := [.int id], hasRegion := true }
    (.leaves ({ name := "aie.packet_source", operands := source } ::
      destinations.map fun operands => { name := "aie.packet_dest", operands }) .nil)

/-- The packet flow of a group, from a source to the destinations below the group. -/
def Program.groupFlow (p : Program) (source : List Attribute) (group : OpId) : Forest Operation :=
  packetFlowTree (((p.op group).operandInt? 0).getD 0) source
    ((p.findIn group "aiex.bp_dest").map fun d => (p.op d).operands)

/-- The packet flows of the groups of a broadcast. -/
def Program.packetFlows (p : Program) (broadcast : OpId) : Forest Operation :=
  .concat ((p.findIn broadcast "aiex.bp_id").map (p.groupFlow (p.op broadcast).operands))

/-- The flows to the destinations below a multicast. -/
def Program.circuitFlows (p : Program) (multicast : OpId) : Forest Operation :=
  .leaves ((p.findIn multicast "aiex.multi_dest").map fun d =>
    { name := "aie.flow", operands := (p.op multicast).operands ++ (p.op d).operands }) .nil

namespace Program.SameAt

/-- What is read of the operations with a name below an operation is the same. -/
theorem map_findIn {α : Type} (h : p.SameAt x q) (name : String) (f : Operation → α) :
    (q.findIn x name).map (fun d => f (q.op d)) = (p.findIn x name).map fun d => f (p.op d) := by
  rw [h.findIn]
  exact List.map_congr_left fun d hd => by rw [h.op d (.inr (List.mem_filter.1 hd).1)]

/-- The packet flow of a group that is the same is the same. -/
theorem groupFlow (h : p.SameAt g q) (source : List Attribute) :
    q.groupFlow source g = p.groupFlow source g := by
  rw [Program.groupFlow, Program.groupFlow, h.map_findIn _ Operation.operands, h.op g (.inl rfl)]

/-- The packet flows of a broadcast that is the same are the same. -/
theorem packetFlows (h : p.SameAt x q) (hp : p.Sound) (hq : q.Sound) :
    q.packetFlows x = p.packetFlows x := by
  rw [Program.packetFlows, Program.packetFlows, h.findIn, h.op x (.inl rfl)]
  exact congrArg _ (List.map_congr_left fun g hg =>
    (h.of_walkIn hp hq (List.mem_filter.1 hg).1).groupFlow _)

/-- The flows of a multicast that is the same are the same. -/
theorem circuitFlows (h : p.SameAt x q) : q.circuitFlows x = p.circuitFlows x := by
  rw [Program.circuitFlows, Program.circuitFlows, h.op x (.inl rfl), h.map_findIn _ fun op =>
    ({ name := "aie.flow", operands := (p.op x).operands ++ op.operands } : Operation)]

end Program.SameAt

/-! ### Broadcasts -/

/-- The packet flow of a group is put before the broadcast. -/
theorem insertPacketFlow_puts {source : List Attribute} (hp : p.Tree) (hregions : p.OwnsRegions)
    (hx : p.Linked x) (h : runOn (insertPacketFlow x source g) p = (.ok (), q)) :
    ∃ F, p.Puts x F q ∧ F.map q.op = p.groupFlow source g ∧
      ((p.op g).operandInt? 0).isSome = true := by
  rw [insertPacketFlow, get_bind_ok] at h
  obtain ⟨n, hn, h⟩ := orFail_bind_ok.1 h
  obtain ⟨flow, r, hflow, h⟩ := bind_ok.1 h
  obtain ⟨_, s, hsource, h⟩ := bind_ok.1 h
  obtain ⟨rfl, -⟩ := insertBefore_ok hflow
  rw [runOn_insertBefore, Prod.mk.injEq] at hflow
  obtain ⟨-, rfl⟩ := hflow
  rw [runOn_append, Prod.mk.injEq] at hsource
  obtain ⟨-, rfl⟩ := hsource
  obtain ⟨hleaf, hop⟩ := hx.puts_leaf hp hregions
    { name := "aie.packet_flow", operands := [.int n], hasRegion := true }
  obtain ⟨hsource, hnew, hkeep⟩ := Program.Puts.append (l := []) hleaf hp (by rw [hop])
    { name := "aie.packet_source", operands := source }
  obtain ⟨hlt, hflowlt⟩ := hleaf.new p.slots.size (by simp [Forest.single])
  obtain ⟨l, hq, hl, hkeepq⟩ := hsource.appendAll hp (by rw [hkeep _ hflowlt, hop]) h
  have hsourcelt := (hsource.new _ (by
    rw [Forest.single, Forest.preorder_cons, Forest.preorder_leaves]
    exact List.mem_cons_of_mem _ (List.mem_append_left _ (List.mem_append_left _
      (List.mem_append_right _ (List.mem_singleton_self _)))))).2
  refine ⟨_, hq, ?_, by rw [hn]; rfl⟩
  rw [Forest.single, Forest.map, Forest.map_leaves, Forest.map, Program.groupFlow, packetFlowTree,
    hn, Option.getD_some, List.nil_append, List.singleton_append, List.map_cons, hl,
    hkeepq _ hsourcelt, hnew, hkeepq _ (Nat.lt_of_lt_of_le hflowlt ?_), hkeep _ hflowlt, hop]
  · rfl
  · rw [Program.append, Program.size_insertAt]
    exact Nat.le_succ _

/-- The packet flows of some groups are put before the broadcast. -/
theorem insertPacketFlows_puts {source : List Attribute} {groups : List OpId} (hp : p.Tree)
    (hregions : p.OwnsRegions) (hx : p.Linked x) 
    (h : runOn (groups.forM (insertPacketFlow x source)) p = (.ok (), q)) :
    ∃ F, p.Puts x F q ∧ (x ∈ p.walk → (∀ g ∈ groups, g ∈ p.walkIn x) →
      F.map q.op = .concat (groups.map (p.groupFlow source)) ∧
        ∀ g ∈ groups, ((p.op g).operandInt? 0).isSome = true) := by
  induction groups generalizing p with
  | nil =>
      obtain rfl := forM_nil_ok.1 h
      exact ⟨.nil, .refl hp hregions x, fun _ _ => ⟨rfl, fun _ hg => nomatch hg⟩⟩
  | cons g groups ih =>
      obtain ⟨r, hg, hrest⟩ := forM_cons_ok.1 h
      obtain ⟨F, hF, hmap, hint⟩ := insertPacketFlow_puts hp hregions hx hg
      obtain ⟨F', hF', hrun⟩ := ih hF.tree hF.regions (hF.linked x hx) hrest
      refine ⟨F ++ F', hF.trans hF' (hx.lt_size hp), fun hwalk hbelow => ?_⟩
      have hsame := hF.sameAt hp hwalk
      have hwalkr : x ∈ r.walk := by
        obtain ⟨k, -, hk⟩ := hsame.below
        exact Forest.mem_preorder_of_below? hk
      have hgroups : ∀ g ∈ groups, p.SameAt g r := fun g hg =>
        hsame.of_walkIn hp.sound hF.tree.sound (hbelow g (List.mem_cons_of_mem _ hg))
      obtain ⟨hmap', hints⟩ := hrun hwalkr fun g hg => by
        rw [hsame.walkIn]
        exact hbelow g (List.mem_cons_of_mem _ hg)
      refine ⟨?_, List.forall_mem_cons.2 ⟨hint, fun g hg => ?_⟩⟩
      · rw [Forest.map_append, hmap', List.map_cons, Forest.concat_cons,
          Forest.map_congr fun id hid => hF'.op id (hF.new id hid).2, hmap,
          List.map_congr_left fun g hg => (hgroups g hg).groupFlow source]
      · rw [← (hgroups g hg).op g (.inl rfl)]
        exact hints g hg

/-- A broadcast is replaced by the packet flows of its groups. -/
theorem lowerBroadcast_grafts (hp : p.Tree) (hregions : p.OwnsRegions) (hx : p.Linked x)
    (h : runOn (lowerBroadcast x) p = (.ok (), q)) :
    ∃ F, p.Grafts x F q ∧ (x ∈ p.walk → F.map q.op = p.packetFlows x ∧
      (p.op x).operands.length = 3 ∧
        ∀ g ∈ p.findIn x "aiex.bp_id", ((p.op g).operandInt? 0).isSome = true) := by
  rw [lowerBroadcast] at h
  obtain ⟨source, r, hsource, h⟩ := bind_ok.1 h
  rw [sourceOperands, get_bind_ok] at hsource
  obtain ⟨hlength, hsource⟩ := ensure_bind_ok.1 hsource
  obtain ⟨rfl, rfl⟩ := pure_ok.1 hsource
  rw [get_bind_ok] at h
  obtain ⟨_, r, hloop, h⟩ := bind_ok.1 h
  rw [runOn_erase, Prod.mk.injEq] at h
  obtain ⟨-, rfl⟩ := h
  obtain ⟨F, hF, hmap⟩ := insertPacketFlows_puts hp hregions hx hloop
  refine ⟨F, hF.erase hp hx, fun hwalk => ?_⟩
  obtain ⟨hmap, hints⟩ := hmap hwalk fun g hg => (List.mem_filter.1 hg).1
  refine ⟨?_, by simpa using hlength, hints⟩
  rw [Forest.map_congr fun id _ => Program.op_erase r x id, hmap]
  rfl

/-! ### Multicasts -/

/-- Some operations are put before another one. -/
theorem insertAll_ok {β : Type} {new : β → Operation} {l : List β}
    (h : runOn (l.forM fun b => do let _ ← Action.insertBefore x (new b)) p = (.ok (), q)) :
    q = p.putAll x (l.map new) := by
  induction l generalizing p with
  | nil => exact (forM_nil_ok.1 h).symm
  | cons b l ih =>
      obtain ⟨r, hop, hrest⟩ := forM_cons_ok.1 h
      obtain ⟨_, _, hinsert, hpure⟩ := bind_ok.1 hop
      obtain ⟨-, rfl⟩ := pure_ok.1 hpure
      rw [runOn_insertBefore, Prod.mk.injEq] at hinsert
      obtain ⟨-, rfl⟩ := hinsert
      exact ih hrest

/-- A multicast is replaced by the flows to its destinations. -/
theorem lowerMulticast_grafts (hp : p.Tree) (hregions : p.OwnsRegions) (hx : p.Linked x)
    (h : runOn (lowerMulticast x) p = (.ok (), q)) :
    ∃ F, p.Grafts x F q ∧ F.map q.op = p.circuitFlows x ∧ (p.op x).operands.length = 3 := by
  rw [lowerMulticast] at h
  obtain ⟨source, r, hsource, h⟩ := bind_ok.1 h
  rw [sourceOperands, get_bind_ok] at hsource
  obtain ⟨hlength, hsource⟩ := ensure_bind_ok.1 hsource
  obtain ⟨rfl, rfl⟩ := pure_ok.1 hsource
  rw [get_bind_ok] at h
  obtain ⟨_, r, hloop, h⟩ := bind_ok.1 h
  rw [runOn_erase, Prod.mk.injEq] at h
  obtain ⟨-, rfl⟩ := h
  obtain rfl := insertAll_ok hloop
  obtain ⟨F, hF, hmap⟩ := hx.grafts_replace hp hregions _
  exact ⟨F, hF, hmap.trans (congrArg (Forest.leaves · .nil) (List.map_map ..)), by simpa
    using hlength⟩

/-! ### Devices -/

/-- What the parser makes of a source is a tree in which only operations with a region have others
below them. -/
theorem Source.ownsRegions_of_parse {source : String} (h : Source.parse source = .ok p) :
    p.Tree ∧ p.OwnsRegions := by
  have hp := (Source.orderly_of_parse h).tree
  refine ⟨hp, hp.ownsRegions fun id hid hne => ?_⟩
  rcases hregion : (p.op id).hasRegion with _ | _
  · have hwalk : p.walkIn id = [] :=
      (loadable_of_parse h).regions id (Source.mem_walk_of_parse h hid) hregion
    obtain ⟨c, hc⟩ := List.exists_mem_of_ne_nil _ hne
    exact absurd (Program.mem_walkIn_of_mem_children hc) (by simp [hwalk])
  · rfl

/-- **Fan-out in place.** When the broadcasts below a device are expanded, the tree of the program
is the one of before with packet flows in the place of every broadcast that is below no other one:
one for each group below it, with the identifier of the group, the three operands of the broadcast
as its source and those of the destinations below the group. When the multicasts are, it has flows
in the place of every multicast that is below no other one: one for each destination below it, from
the three operands of the multicast. -/
theorem fanOut_contents (hp : p.Tree) (hregions : p.OwnsRegions) (hdevice : device ∈ p.walk) :
    (∀ q, runOn (lowerBroadcasts device) p = (.ok (), q) →
      q.contents = p.body.graft
        (p.expansion device "aiex.broadcast_packet" Program.packetFlows) p.op ∧
      ∀ x, p.Outer device "aiex.broadcast_packet" x → (p.op x).operands.length = 3 ∧
        ∀ g ∈ p.findIn x "aiex.bp_id", ((p.op g).operandInt? 0).isSome = true) ∧
    (∀ q, runOn (lowerMulticasts device) p = (.ok (), q) →
      q.contents = p.body.graft (p.expansion device "aiex.multicast" Program.circuitFlows) p.op ∧
      ∀ x, p.Outer device "aiex.multicast" x → (p.op x).operands.length = 3) := by
  refine ⟨fun q h => ?_, fun q h => ?_⟩
  · rw [lowerBroadcasts, get_bind_ok] at h
    refine Program.findIn_grafts (fun p q x hp hq hsame => ⟨hsame.packetFlows hp hq, fun hx => ?_⟩)
      (fun x r s hr hregions hx hrun => lowerBroadcast_grafts hr hregions hx hrun) hp hregions
      hdevice h
    rw [hsame.op x (.inl rfl), hsame.findIn] at hx
    refine ⟨hx.1, fun g hg => ?_⟩
    rw [← hsame.op g (.inr (List.mem_filter.1 hg).1)]
    exact hx.2 g hg
  · rw [lowerMulticasts, get_bind_ok] at h
    refine Program.findIn_grafts (C := fun p x => (p.op x).operands.length = 3)
      (fun p q x _ _ hsame => ⟨hsame.circuitFlows, fun hx => ?_⟩)
      (fun x r s hr hregions hx hrun => ?_) hp hregions hdevice h
    · rwa [hsame.op x (.inl rfl)] at hx
    · obtain ⟨F, hF, hmap⟩ := lowerMulticast_grafts hr hregions hx hrun
      exact ⟨F, hF, fun _ => hmap⟩

/-- A broadcast with two groups and a multicast, one behind the other. -/
def fanOutProgram : Program :=
  .ofForest .empty <| .single
    { name := "aie.device", operands := [.ident "ipu"], hasRegion := true }
    (.cons { name := "aiex.broadcast_packet"
             operands := [.value "a", .ident "DMA", .int 0], hasRegion := true }
      (.cons { name := "aiex.bp_id", operands := [.int 0], hasRegion := true }
        (.leaves [{ name := "aiex.bp_dest", operands := [.value "b", .ident "DMA", .int 0] },
          { name := "aiex.bp_dest", operands := [.value "c", .ident "DMA", .int 1] }] .nil)
        (.single { name := "aiex.bp_id", operands := [.int 1], hasRegion := true }
          (.leaves [{ name := "aiex.bp_dest", operands := [.value "d", .ident "DMA", .int 0] }]
            .nil)))
      (.single { name := "aiex.multicast"
                 operands := [.value "a", .ident "DMA", .int 1], hasRegion := true }
        (.leaves [{ name := "aiex.multi_dest", operands := [.value "b", .ident "DMA", .int 1] },
          { name := "aiex.multi_dest", operands := [.value "c", .ident "DMA", .int 0] }] .nil)))

/-- Two packet flows in the place of the broadcast, and two flows in the place of the multicast. -/
theorem fanOut_contents_ofForest : ∃ q r, runOn (lowerBroadcasts 0) fanOutProgram = (.ok (), q) ∧
    q.contents = fanOutProgram.body.graft
      (fanOutProgram.expansion 0 "aiex.broadcast_packet" Program.packetFlows) fanOutProgram.op ∧
    runOn (lowerMulticasts 0) fanOutProgram = (.ok (), r) ∧
    r.contents = fanOutProgram.body.graft
      (fanOutProgram.expansion 0 "aiex.multicast" Program.circuitFlows) fanOutProgram.op ∧
    q.contents.preorder = [{ name := "aie.device", operands := [.ident "ipu"], hasRegion := true },
      { name := "aie.packet_flow", operands := [.int 0], hasRegion := true },
      { name := "aie.packet_source", operands := [.value "a", .ident "DMA", .int 0] },
      { name := "aie.packet_dest", operands := [.value "b", .ident "DMA", .int 0] },
      { name := "aie.packet_dest", operands := [.value "c", .ident "DMA", .int 1] },
      { name := "aie.packet_flow", operands := [.int 1], hasRegion := true },
      { name := "aie.packet_source", operands := [.value "a", .ident "DMA", .int 0] },
      { name := "aie.packet_dest", operands := [.value "d", .ident "DMA", .int 0] },
      { name := "aiex.multicast", operands := [.value "a", .ident "DMA", .int 1],
        hasRegion := true },
      { name := "aiex.multi_dest", operands := [.value "b", .ident "DMA", .int 1] },
      { name := "aiex.multi_dest", operands := [.value "c", .ident "DMA", .int 0] }] ∧
    r.contents.preorder.drop 7 =
      [{ name := "aie.flow"
         operands := [.value "a", .ident "DMA", .int 1, .value "b", .ident "DMA", .int 1] },
        { name := "aie.flow"
          operands := [.value "a", .ident "DMA", .int 1, .value "c", .ident "DMA", .int 0] }] := by
  have hok : (runOn (lowerBroadcasts 0) fanOutProgram).1 = .ok () ∧
      (runOn (lowerMulticasts 0) fanOutProgram).1 = .ok () := by
    decide +kernel
  have hp : fanOutProgram.Tree := (Program.wellFormed_ofForest _ _).tree rfl
  have hregions : fanOutProgram.OwnsRegions := hp.ownsRegions (by decide +kernel)
  have hdevice : 0 ∈ fanOutProgram.walk := by decide +kernel
  obtain ⟨hbroadcast, hmulticast⟩ := fanOut_contents hp hregions hdevice
  have hq : runOn (lowerBroadcasts 0) fanOutProgram =
      (.ok (), (runOn (lowerBroadcasts 0) fanOutProgram).2) := Prod.ext hok.1 rfl
  have hr : runOn (lowerMulticasts 0) fanOutProgram =
      (.ok (), (runOn (lowerMulticasts 0) fanOutProgram).2) := Prod.ext hok.2 rfl
  exact ⟨_, _, hq, (hbroadcast _ hq).1, hr, (hmulticast _ hr).1, by decide +kernel,
    by decide +kernel⟩

end TileFlow
