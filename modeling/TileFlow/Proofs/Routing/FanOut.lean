import TileFlow.Proofs.Stage.Edits

/-!
# Broadcast and multicast

The stages that replace operations with several destinations create packet flows and flows, and
leave no broadcast and no multicast in any device.

## Main definitions

* `EditRule.broadcasts`, `EditRule.multicasts`: the edits of the two stages.

## Main results

* `lowerBroadcasts_edits`, `lowerMulticasts_edits`: what the stages do.
-/

namespace TileFlow

open TileFlow.Action

variable {p q : Program}

/-- Reading the operands of a source changes nothing. -/
theorem sourceOperands_ok {id : OpId} {operands : List Attribute}
    (h : runOn (sourceOperands id) p = (.ok operands, q)) :
    p = q ∧ operands = (p.op id).operands := by
  rw [sourceOperands, get_bind_ok] at h
  obtain ⟨-, h⟩ := ensure_bind_ok.1 h
  obtain ⟨rfl, rfl⟩ := pure_ok.1 h
  exact ⟨rfl, rfl⟩

/-! ### Broadcasts -/

/-- Broadcasts are erased. Packet flows are created, with destinations that groups of broadcasts
describe. -/
def EditRule.broadcasts : EditRule where
  creates p _ op := op.result = none ∧
    (op.is "aie.packet_flow" = true ∨ op.is "aie.packet_source" = true ∨
      (op.is "aie.packet_dest" = true ∧
        ∃ d < p.slots.size, (p.op d).is "aiex.bp_dest" = true ∧ op.operands = (p.op d).operands))
  changes _ _ _ := False
  erases p id := (p.op id).is "aiex.broadcast_packet" = true

/-- Lowering broadcasts leaves devices alone. -/
theorem EditRule.broadcasts_sparesDevices : EditRule.broadcasts.SparesDevices where
  creates _ _ op hop := by
    obtain ⟨-, h | h | ⟨h, -⟩⟩ := hop <;> exact Operation.not_is_of_is h (by decide)
  changes _ _ _ hop := hop.elim
  erases _ _ hop := Operation.not_is_of_is hop (by decide)

/-- Lowering broadcasts leaves none of them. -/
theorem EditRule.broadcasts_dissolves :
    EditRule.broadcasts.Dissolves "aiex.broadcast_packet" where
  creates _ _ op hop := by
    obtain ⟨-, h | h | ⟨h, -⟩⟩ := hop <;> exact Operation.not_is_of_is h (by decide)
  changes _ _ _ hop := hop.elim
  erases _ _ hop := hop

/-- Lowering broadcasts creates packet flows and their ends. -/
theorem EditRule.broadcasts_names :
    EditRule.broadcasts.Names ["aie.packet_flow", "aie.packet_source", "aie.packet_dest"] where
  creates _ _ op hop := by
    obtain ⟨-, h | h | ⟨h, -⟩⟩ := hop <;> simp [beq_iff_eq.1 h]
  changes _ _ _ hop := hop.elim

/-- A packet flow is inserted by the rules. -/
theorem insertPacketFlow_edits {broadcast group : OpId} {source : List Attribute} (hp : p.Sound)
    (h : runOn (insertPacketFlow broadcast source group) p = (.ok (), q)) :
    p.Edits .broadcasts q := by
  rw [insertPacketFlow, get_bind_ok] at h
  obtain ⟨n, -, h⟩ := orFail_bind_ok.1 h
  obtain ⟨flow, r, hflow, h⟩ := bind_ok.1 h
  obtain ⟨_, s, hsource, h⟩ := bind_ok.1 h
  have hr : p.Edits .broadcasts r :=
    insertBefore_edits hflow (fun _ => ⟨rfl, .inl rfl⟩) (Program.fresh_of_none rfl)
  have hs : p.Edits .broadcasts s :=
    hr.trans (append_edits hsource ⟨rfl, .inr (.inl rfl)⟩ (Program.fresh_of_none rfl))
  refine hs.trans (forM_edits (hs.sound hp) h fun operands hoperands t u _ ht hrun => ?_)
  obtain ⟨d, hd, rfl⟩ := List.mem_map.1 hoperands
  obtain ⟨hin, hname⟩ := List.mem_filter.1 hd
  obtain ⟨_, u, happend, hpure⟩ := bind_ok.1 hrun
  obtain ⟨-, rfl⟩ := pure_ok.1 hpure
  have hlt := hp.lt_size_of_walkIn hin
  have hold : (p.op d).SameHeader (t.op d) :=
    (hs.trans ht).sameHeader hp (fun _ _ _ hop => hop) hlt
  refine append_edits happend ⟨rfl, .inr (.inr ⟨rfl, d, ?_, ?_, hold.operands.symm⟩)⟩
    (Program.fresh_of_none rfl)
  · exact Nat.lt_of_lt_of_le hlt ((hs.trans ht).size_le hp)
  · rw [hold.is, hname]

/-- Lowering one broadcast creates packet flows by the rules and erases the broadcast. -/
theorem lowerBroadcast_ok {broadcast : OpId} (hp : p.Sound)
    (h : runOn (lowerBroadcast broadcast) p = (.ok (), q)) :
    ∃ r, p.Edits .broadcasts r ∧ q = r.erase broadcast := by
  rw [lowerBroadcast] at h
  obtain ⟨source, s, hsource, h⟩ := bind_ok.1 h
  obtain ⟨rfl, -⟩ := sourceOperands_ok hsource
  rw [get_bind_ok] at h
  obtain ⟨_, r, hloop, h⟩ := bind_ok.1 h
  exact ⟨r, forM_edits hp hloop fun _ _ _ _ ht _ hrun => insertPacketFlow_edits ht hrun,
    by simpa [eq_comm] using h⟩

/-- Broadcasts are replaced by packet flows, and none is left in any device. -/
theorem lowerBroadcasts_edits (hp : p.Sound)
    (h : runOn Stage.broadcastPackets.action p = (.ok (), q)) :
    p.Edits .broadcasts q ∧ ∀ device ∈ q.devices, ∀ id ∈ q.walkIn device,
      (q.op id).is "aiex.broadcast_packet" = false :=
  Stage.dissolves EditRule.broadcasts_sparesDevices EditRule.broadcasts_dissolves hp h
    fun _ _ _ _ hr _ _ _ _ _ hrun => lowerBroadcast_ok hr hrun

/-! ### Multicasts -/

/-- Multicasts are erased, and flows are created. -/
def EditRule.multicasts : EditRule where
  creates _ _ op := op.result = none ∧ op.is "aie.flow" = true
  changes _ _ _ := False
  erases p id := (p.op id).is "aiex.multicast" = true

/-- Lowering multicasts leaves devices alone. -/
theorem EditRule.multicasts_sparesDevices : EditRule.multicasts.SparesDevices where
  creates _ _ _ hop := Operation.not_is_of_is hop.2 (by decide)
  changes _ _ _ hop := hop.elim
  erases _ _ hop := Operation.not_is_of_is hop (by decide)

/-- Lowering multicasts leaves none of them. -/
theorem EditRule.multicasts_dissolves : EditRule.multicasts.Dissolves "aiex.multicast" where
  creates _ _ _ hop := Operation.not_is_of_is hop.2 (by decide)
  changes _ _ _ hop := hop.elim
  erases _ _ hop := hop

/-- Lowering multicasts creates flows. -/
theorem EditRule.multicasts_names : EditRule.multicasts.Names ["aie.flow"] where
  creates _ _ op hop := by simp [beq_iff_eq.1 hop.2]
  changes _ _ _ hop := hop.elim

/-- Lowering one multicast creates flows by the rules and erases the multicast. -/
theorem lowerMulticast_ok {multicast : OpId} (hp : p.Sound)
    (h : runOn (lowerMulticast multicast) p = (.ok (), q)) :
    ∃ r, p.Edits .multicasts r ∧ q = r.erase multicast := by
  rw [lowerMulticast] at h
  obtain ⟨source, s, hsource, h⟩ := bind_ok.1 h
  obtain ⟨rfl, -⟩ := sourceOperands_ok hsource
  rw [get_bind_ok] at h
  obtain ⟨_, r, hloop, h⟩ := bind_ok.1 h
  refine ⟨r, forM_edits hp hloop fun destination _ t u _ _ hrun => ?_, by simpa [eq_comm] using h⟩
  obtain ⟨_, u, hinsert, hpure⟩ := bind_ok.1 hrun
  obtain ⟨-, rfl⟩ := pure_ok.1 hpure
  exact insertBefore_edits hinsert (fun _ => ⟨rfl, rfl⟩) (Program.fresh_of_none rfl)

/-- Multicasts are replaced by flows, and none is left in any device. -/
theorem lowerMulticasts_edits (hp : p.Sound)
    (h : runOn Stage.lowerMulticast.action p = (.ok (), q)) :
    p.Edits .multicasts q ∧ ∀ device ∈ q.devices, ∀ id ∈ q.walkIn device,
      (q.op id).is "aiex.multicast" = false :=
  Stage.dissolves EditRule.multicasts_sparesDevices EditRule.multicasts_dissolves hp h
    fun _ _ _ _ hr _ _ _ _ _ hrun => lowerMulticast_ok hr hrun

end TileFlow
