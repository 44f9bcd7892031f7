import TileFlow.Proofs.Routing.Legible
import TileFlow.Proofs.Stage.LocksInReach

/-!
# Canonical programs can be loaded again

Five stages of the pipeline create no operation but the device around a program: they give
operations other names, locks an identifier and buffers an address, and erase terminators. What they
put into an operation can be written: the names are those of a table, and the numbers fit because
they were checked. With the stages that replace FIFOs, broadcasts, multicasts and packet flows, the
whole pipeline keeps a program legible under conditions on the source.

What the accesses of a FIFO become uses values that are defined where the FIFO was. An access that
comes before its FIFO therefore becomes a use before the definition, and the canonical program is
not loaded again.

## Main definitions

* `Program.StaysLegible`: the sources whose canonical programs can be loaded.
* `Source.NotReloaded`: a source whose canonical program is written and then rejected.

## Main results

* `Program.Legible.edits_of_rewords`: edits that reword operations.
* `Program.Legible.affine`, `Program.Legible.wrapInDevice`, `Program.Legible.lockIds`,
  `Program.Legible.addresses`, `Program.Legible.structured`: the stages.
* `LoweringRun.legible`: the pipeline up to the layout of buffers.
* `canonicalizeSource_reload`: canonical programs that are loaded again.
-/

/-! ## Stages that create nothing -/

namespace TileFlow

open TileFlow.Action Source

variable {rule : EditRule} {p q r : Program} {id device : OpId} {op : Operation} {name : String}

/-! ### Renamed operations -/

/-- A legible operation under another name that can be written is legible. -/
theorem Operation.IsLegible.withName (h : op.IsLegible) (hlex : Token.IsLexeme (.ident name))
    (hname : name ∉ namingNames) : Operation.IsLegible { op with name := name } where
  toIsWritten := { h.toIsWritten with name := hlex }
  toGivesNames := givesNames_of_name hname

/-- An operation may get another name, unless it would be erased for it. -/
theorem Program.Rewords.withName (h : (p.op id).IsLegible) (hlex : Token.IsLexeme (.ident name))
    (hname : name ∉ Operation.namingNames)
    (hdiscarded : name ∈ discardedNames → (p.op id).name ∈ discardedNames) :
    p.Rewords id { p.op id with name := name } where
  legible := h.withName hlex hname
  result := rfl
  region := rfl
  name := hdiscarded
  uses _ _ hv := .inl hv

/-- Edits that create nothing, reword operations and erase some that may be erased. -/
theorem Program.Legible.edits_of_rewords (hp : p.Legible) (h : p.Edits rule q)
    (creates : ∀ r parent op, ¬ rule.creates r parent op)
    (changes : ∀ r id op, (r.op id).IsLegible → rule.changes r id op → r.Rewords id op)
    (erases : ∀ r id, rule.erases r id → (r.op id).name ∈ discardedNames) : q.Legible := by
  induction h with
  | refl => exact hp
  | @tail r q _ hedit ih =>
      cases hedit with
      | create parent i op hop => exact absurd hop (creates r parent op)
      | change id f hlt hop => exact ih.modify fun _ => changes r id _ (ih.legible id hlt) hop
      | erase x hlt hop => exact ih.erase hlt (erases r x hop)

/-! ### The stages -/

/-- Affine operations get names of structured ones. -/
theorem Program.Legible.affine (hp : p.Legible) (h : p.Edits .affine q) : q.Legible := by
  have hnames : ∀ pair ∈ affineNames, pair.2 ∈ stageIdents ∧
      pair.2 ∉ Operation.namingNames ∧ (pair.2 ∈ discardedNames → pair.1 ∈ discardedNames) := by
    decide
  refine hp.edits_of_rewords h (fun _ _ _ hop => hop) (fun r id op hid hop => ?_)
    fun _ _ hop => hop.elim
  subst hop
  rcases (r.op id).renamed_affine with heq | ⟨old, new, hmem, hold, heq⟩
  · rw [heq]
    exact .refl hid
  · obtain ⟨hident, hname, hdiscarded⟩ := hnames (old, new) hmem
    rw [heq]
    exact .withName hid (isLexeme_of_mem_stageIdents _ hident) hname
      fun hnew => hold ▸ hdiscarded hnew

/-- Loops and conditionals get other names, and terminators are erased. -/
theorem Program.Legible.structured (hp : p.Legible) (h : p.Edits .structured q) : q.Legible := by
  refine hp.edits_of_rewords h (fun _ _ _ hop => hop) (fun r id op hid hop => ?_)
    fun r id hop => beq_iff_eq.1 hop ▸ by decide
  rcases hop with ⟨-, rfl⟩ | ⟨-, rfl⟩
  · exact .withName hid (isLexeme_of_mem_stageIdents _ (by simp [stageIdents])) (by decide)
      fun hname => absurd hname (by decide)
  · exact .withName hid (isLexeme_of_mem_stageIdents _ (by simp [stageIdents])) (by decide)
      fun hname => absurd hname (by decide)

/-- The default device is legible. -/
theorem defaultDevice_isLegible : defaultDevice.IsLegible := by
  refine Operation.isLegible_of_operands true
    (isLexeme_of_mem_stageIdents _ (by simp [stageIdents])) (by decide) fun a ha => ?_
  rw [List.mem_singleton.1 ha]
  exact (Attribute.isWritten_ident (isLexeme_of_mem_stageIdents _ (by simp [stageIdents]))).operand

/-- A device around a program comes before all of it, and hides nothing. -/
theorem Program.Legible.wrapInDevice (hp : p.Legible) (hdetached : p.detached = [])
    (h : runOn wrapInDevice p = (.ok (), q)) : q.Legible := by
  have hwraps := wrapInDevice_wraps hp.sound hdetached h
  rcases wrapInDevice_cases hp.sound hdetached h with
    ⟨-, rfl⟩ | ⟨-, hbody, hqdetached, hsize, hold, hdevice, hattributes⟩
  · exact hp
  have hwalk : q.walk = p.slots.size :: p.walk := by
    rw [walk, hbody, walk]
    simp [Forest.single]
  have hcases : ∀ id ∈ q.walk, id = p.slots.size ∨ id ∈ p.walk := fun id hid => by
    rwa [hwalk, List.mem_cons] at hid
  refine ⟨hwraps.sound.toWellFormed.tree hqdetached, hwraps.nodup hp.sound hp.values,
    fun id hid v hv => ?_, fun id hid => ?_, fun id hid hregion => ?_,
    hwraps.definesNone hp.barren hp.sound (by decide), hattributes ▸ hp.attributes⟩
  · rcases hcases id hid with rfl | hidp
    · rw [hdevice] at hv
      cases List.mem_singleton.1 hv
    · rw [hold id (hp.sound.created id hidp)] at hv
      obtain ⟨d, hd, hdv⟩ := hp.scope id hidp v hv
      refine ⟨d, ?_, by rw [hold d (hp.sound.created d hd.left_mem), hdv]⟩
      rw [Precedes, hwalk]
      exact List.Sublist.trans hd (List.sublist_cons_self _ _)
  · rw [hsize] at hid
    rcases Nat.lt_succ_iff_lt_or_eq.1 hid with hlt | rfl
    · rw [hold id hlt]
      exact hp.legible id hlt
    · rw [hdevice]
      exact defaultDevice_isLegible
  · rcases hcases id hid with rfl | hidp
    · rw [hdevice] at hregion
      cases hregion
    · rw [hold id (hp.sound.created id hidp)] at hregion
      rw [hwraps.walkIn id hidp]
      exact hp.regions id hidp hregion

/-- A change that leaves the name of an operation leaves all names. -/
theorem Program.name_modify {f : Operation → Operation} (h : (f (p.op id)).name = (p.op id).name)
    (j : OpId) : ((p.modify id f).op j).name = (p.op j).name := by
  by_cases hj : j = id
  · subst hj
    rcases Nat.lt_or_ge j p.slots.size with hlt | hge
    · rw [op_modify_self hlt, h]
    · rw [modify_of_size_le hge]
  · rw [op_modify_of_ne hj]

/-- A lock gets an identifier of its tile. -/
theorem Program.Legible.chooseLockId {model : DeviceModel} {l l' : LockLedger} {lock : OpId}
    (hp : p.Legible) (hname : (p.op lock).name = "aie.lock")
    (h : runOn (chooseLockId model l lock) p = (.ok l', q)) :
    q.Legible ∧ ∀ j, (q.op j).name = (p.op j).name := by
  rcases chooseLockId_ok h with ⟨-, -, rfl⟩ | ⟨-, tile, n, -, hfirst, -, rfl⟩
  · exact ⟨hp, fun _ => rfl⟩
  obtain ⟨hpos, hlimit, -⟩ := LockLedger.firstFree?_eq_some hfirst
  have hfits := Integer.fits_of_lt_lockCount hpos hlimit
  refine ⟨hp.modify fun hlt => ?_, name_modify rfl⟩
  have hop := hp.legible lock hlt
  refine ⟨⟨{ hop.toIsWritten with operands := fun a ha => ?_ }, ?_⟩, rfl, rfl, fun hmem => hmem,
    fun _ v hv => .inl ?_⟩
  · rcases List.mem_append.1 ha with ha | ha
    · exact hop.operands a (List.mem_of_mem_take ha)
    · rw [List.mem_singleton.1 ha]
      exact (Attribute.isWritten_int hfits).operand
  · refine Operation.givesNames_of_name ?_
    rw [hname]
    decide
  · rcases List.mem_append.1 hv with hv | hv
    · exact List.mem_of_mem_take hv
    · cases List.mem_singleton.1 hv

/-- A loop over the locks of devices. -/
theorem Program.Legible.lockIds (hp : p.Legible)
    (h : runOn Stage.assignLockIds.action p = (.ok (), q)) : q.Legible := by
  change runOn (Stage.onEachDevice TileFlow.assignLockIds) p = _ at h
  rw [Stage.onEachDevice, get_bind_ok] at h
  refine forM_induction (I := Legible) h hp fun device _ r s hr hrun => ?_
  rw [TileFlow.assignLockIds, get_bind_ok] at hrun
  dsimp only at hrun
  obtain ⟨l, t, henter, hrun⟩ := bind_ok.1 hrun
  obtain ⟨l', u, hchoose, hrun⟩ := bind_ok.1 hrun
  obtain ⟨-, rfl⟩ := pure_ok.1 hrun
  have ht : t = r := foldlM_induction (I := fun u => u = r) henter rfl
    fun lock _ a a' u v hu hstep => (enterLock_ok hstep).1.symm.trans hu
  subst ht
  have hloop : u.Legible ∧ ∀ j, (u.op j).name = (t.op j).name :=
    foldlM_induction (I := fun u => u.Legible ∧ ∀ j, (u.op j).name = (t.op j).name) hchoose
      ⟨hr, fun _ => rfl⟩ fun lock hlock a a' v w hI hstep => by
        obtain ⟨hv, hnames⟩ := hI
        have hname : (t.op lock).name = "aie.lock" := beq_iff_eq.1 (List.mem_filter.1 hlock).2
        obtain ⟨hw, hnames'⟩ := hv.chooseLockId ((hnames lock).trans hname) hstep
        exact ⟨hw, fun j => (hnames' j).trans (hnames j)⟩
  exact hloop.1

/-! ### Addresses -/

/-- An aligned address is in range. -/
theorem alignUp?_fits {a b : Int} (h : alignUp? a = some b) : Integer.Fits b := by
  obtain ⟨n, hn, rfl⟩ := Option.map_eq_some_iff.1 h
  rw [Integer.checkedAdd] at hn
  split at hn
  · rename_i hfits
    obtain rfl := Option.some.inj hn
    have hdiv := Int.mul_tdiv_add_tmod (a + (bufferAlignment - 1)) bufferAlignment
    have hlow := Int.lt_tmod_of_pos (a + (bufferAlignment - 1)) (b := bufferAlignment) (by decide)
    have hsize : (Int.tdiv (a + (bufferAlignment - 1)) bufferAlignment).natAbs =
        (a + (bufferAlignment - 1)).natAbs / 16 := Int.natAbs_tdiv _ _
    rw [Integer.Fits] at *
    rw [bufferAlignment] at *
    omega
  · cases hn

/-- A buffer gets an address that was computed with checks. -/
theorem Program.Legible.placeBuffer {tile : Tile} {limit next next' : Int} {buffer : OpId}
    (hp : p.Legible) (h : runOn (placeBuffer tile limit next buffer) p = (.ok next', q)) :
    q.Legible := by
  rw [TileFlow.placeBuffer, get_bind_ok] at h
  split at h
  · obtain ⟨address, haddress, h⟩ := orFail_bind_ok.1 h
    obtain ⟨stop, -, h⟩ := orFail_bind_ok.1 h
    obtain ⟨-, h⟩ := ensure_bind_ok.1 h
    obtain ⟨_, r, hupdate, h⟩ := bind_ok.1 h
    rw [runOn_update, Prod.mk.injEq] at hupdate
    obtain ⟨-, rfl⟩ := hupdate
    obtain ⟨-, rfl⟩ := pure_ok.1 h
    refine hp.modify fun hlt => ⟨⟨?_, ?_⟩, rfl, rfl, fun hmem => hmem, fun _ _ hv => .inl hv⟩
    · exact (hp.legible buffer hlt).toIsWritten.withAttr
        (isLexeme_of_mem_stageIdents _ (by simp [stageIdents]))
        (Attribute.isWritten_int (alignUp?_fits haddress))
    · exact (hp.legible buffer hlt).toGivesNames.withAttr (by decide)
  · obtain ⟨-, rfl⟩ := pure_ok.1 h
    exact hp

/-- The buffers of all devices get addresses. -/
theorem Program.Legible.addresses (hp : p.Legible)
    (h : runOn Stage.assignBufferAddresses.action p = (.ok (), q)) : q.Legible := by
  change runOn (Stage.onEachDevice TileFlow.assignBufferAddresses) p = _ at h
  rw [Stage.onEachDevice, get_bind_ok] at h
  refine forM_induction (I := Legible) h hp fun device _ r s hr hrun => ?_
  rw [TileFlow.assignBufferAddresses, get_bind_ok] at hrun
  obtain ⟨_, t, hlocks, hrun⟩ := bind_ok.1 hrun
  obtain rfl := checkLocks_ok hlocks
  obtain ⟨groups, t, hgroups, hrun⟩ := bind_ok.1 hrun
  obtain ⟨rfl, -⟩ := groupBuffers_ok hgroups
  refine forM_induction (I := Legible) hrun hr fun g _ t u ht hlay => ?_
  rw [layOutTile] at hlay
  obtain ⟨next, v, hcheck, hlay⟩ := bind_ok.1 hlay
  obtain ⟨rfl, -⟩ := checkBuffers_ok hcheck
  obtain ⟨_, v, hplace, hlay⟩ := bind_ok.1 hlay
  obtain ⟨-, rfl⟩ := pure_ok.1 hlay
  exact foldlM_induction (I := Legible) hplace ht fun _ _ _ _ _ _ hv hstep => hv.placeBuffer hstep

end TileFlow

/-! ## The pipeline -/

namespace TileFlow

open TileFlow.Action Source

variable {p q r m : Program} {a b : OpId}

/-! ### The source -/

instance (op : Operation) : Decidable op.GivesNames :=
  decidable_of_iff
    ((op.is "aie.objectfifo" = true → ∀ s ∈ op.textAttr? "sym_name", Token.IsLexeme (.value s)) ∧
      (op.name ∈ endpointNames → ∀ s ∈ op.operandText? 1, Token.IsLexeme (.ident s)) ∧
      (op.is "aie.tile" = true → ∀ t ∈ op.tile?, 0 ≤ t.column ∧ 0 ≤ t.row))
    ⟨fun h => ⟨h.1, h.2.1, h.2.2⟩, fun h => ⟨h.fifo, h.bundle, h.tile⟩⟩

/-- Whether what a source is lowered to can be loaded: its texts can become names, what the pipeline
erases defines no value and hides nothing that it replaces, the FIFOs of a block come before what
may use their locks, and the channels of its streams can be counted. -/
structure Program.StaysLegible (p : Program) : Prop where
  texts : ∀ id ∈ p.walk, (p.op id).GivesNames
  barren : p.DefinesNone discardedNames
  hides : p.HidesNone discardedNames ["aie.objectfifo", "aiex.broadcast_packet", "aiex.multicast"]
  first : ∀ block ∈ p.deviceBlocks, ∀ fifo ∈ p.namedIn block "aie.objectfifo",
    ∀ x ∈ p.blockOps block, (p.op x).name ∈ fifoUserNames → p.Precedes fifo x
  few : p.streaming.length ≤ 2 ^ 63

instance : Decidable p.StaysLegible :=
  decidable_of_iff (_ ∧ _ ∧ _ ∧ _ ∧ _)
    ⟨fun h => ⟨h.1, h.2.1, h.2.2.1, h.2.2.2.1, h.2.2.2.2⟩,
      fun h => ⟨h.texts, h.barren, h.hides, h.first, h.few⟩⟩

/-- What the parser makes of such a source is legible. -/
theorem Program.StaysLegible.legible {source : String} (h : p.StaysLegible)
    (hparse : parse source = .ok p) : p.Legible := by
  obtain ⟨hp, hvalues, hdetached⟩ := parse_ok hparse
  have hload := loadable_of_parse hparse
  refine ⟨hp.toWellFormed.tree hdetached, hvalues, hload.scope, fun id hid => ?_, hload.regions,
    h.barren, hload.attributes⟩
  have hmem := mem_walk_of_parse hparse hid
  exact ⟨hload.written id hmem, h.texts id hmem⟩

/-- Operations of some kinds are hidden by nothing if those of more kinds are. -/
theorem Program.HidesNone.of_subset {names kinds kinds' : List String}
    (h : p.HidesNone names kinds) (hsub : kinds' ⊆ kinds) : p.HidesNone names kinds' :=
  fun x hx hname id hid hkind => h x hx hname id hid (hsub hkind)

namespace LoweringRun

variable (c : LoweringRun p q)

/-- The first two stages leave the order of operations. -/
theorem base_precedes (h : p.Precedes a b) : c.base.Precedes a b := by
  obtain ⟨haffine, -⟩ := c.base_ok
  obtain ⟨hbody, hdetached⟩ := haffine.body_eq (fun _ _ _ hop => hop) fun _ _ hop => hop
  have hwalk : c.affine.walk = p.walk := by rw [Program.walk, hbody, Program.walk]
  rcases wrapInDevice_cases (haffine.sound c.sound) (hdetached.trans c.detached) c.base_run with
    ⟨-, heq⟩ | ⟨-, hsingle, -⟩
  · rw [heq, Program.Precedes, hwalk]
    exact h
  · rw [Program.Precedes, Program.walk, hsingle, Forest.single, Forest.preorder_cons]
    have hsub : [a, b].Sublist c.affine.walk := hwalk ▸ h
    simpa [Program.walk] using hsub.trans (List.sublist_cons_self c.affine.slots.size _)

/-- In a device, the FIFOs come first if they do so in its block of the source. -/
theorem base_fifosFirst (h : p.StaysLegible) : c.base.FifosFirst := by
  have husers : ∀ name ∈ fifoUserNames, ∀ pair ∈ affineNames, pair.1 ≠ name ∧ pair.2 ≠ name := by
    decide
  intro x hx hname device hdevice hbelow fifo hfifo
  obtain ⟨block, hblock, hwalk⟩ := c.exists_block hdevice
  rw [c.base_findIn hblock hwalk (by decide)] at hfifo
  rw [hwalk] at hbelow
  have hlt := c.sound.created x (Program.mem_walk_of_mem_blockOps c.sound hblock hbelow)
  have hheader := c.base_sameHeader (husers _ hname) hlt BEq.rfl
  exact c.base_precedes (h.first block hblock fifo hfifo x hbelow (hheader.name ▸ hname))

/-- The program in devices streams no FIFO that the source does not stream. -/
theorem base_streaming : c.base.streaming ⊆ p.streaming := by
  obtain ⟨haffine, hwraps, -⟩ := c.base_ok
  refine fun id hid => haffine.streaming_subset EditRule.affine_names c.sound (by decide) ?_
  obtain ⟨hmem, hname⟩ := Program.mem_streaming.1 hid
  rcases hwraps.walk id hmem with hold | hdevice
  · rw [hwraps.op id ((haffine.sound c.sound).created id hold)] at hname
    exact Program.mem_streaming.2 ⟨hold, hname⟩
  · rw [hdevice] at hname
    exact absurd hname (by decide)

/-- The program stays legible up to the layout of the buffers. -/
theorem legible (c : LoweringRun p q) (hp : p.Legible) (h : p.StaysLegible) : q.Legible := by
  obtain ⟨haffine, -, hbase, -⟩ := c.base_ok
  obtain ⟨-, hdetached⟩ := haffine.body_eq (fun _ _ _ hop => hop) fun _ _ hop => hop
  have h₂ := (hp.affine haffine).wrapInDevice (hdetached.trans c.detached) c.base_run
  have h₃ := h₂.lockIds c.lockIds_run
  have hfirst₃ := (c.base_fifosFirst h).edits hbase EditRule.lockIds_sparesDevices
    EditRule.lockIds_names (by decide) c.lockIds_edits
  obtain ⟨h₄, hfirst₄⟩ := registerProcesses_legible h₃ hfirst₃ c.processes_run
  have hhides := c.base_hidesNone (by decide) h.hides
  have hhides₄ := (hhides.edits EditRule.lockIds_keepsValues
    (EditRule.lockIds_names.exposes (by decide)) hbase c.lockIds_edits).edits
    EditRule.processes_keepsValues (EditRule.processes_names.exposes (by decide)) c.lockIds_sound
    c.processes_edits
  have hstreaming : c.processes.streaming ⊆ p.streaming := fun id hid =>
    c.base_streaming (c.lockIds_edits.streaming_subset EditRule.lockIds_names hbase (by decide)
      (c.processes_edits.streaming_subset EditRule.processes_names c.lockIds_sound (by decide) hid))
  have hfew₄ := (List.subperm_of_subset c.processes_sound.nodup_streaming hstreaming).length_le
  have h₅ := lowerObjectFifos_legible h₄ hfirst₄ (hhides₄.of_subset (by decide))
    (Nat.le_trans hfew₄ h.few) c.fifos_run
  have hhides₅ := hhides₄.edits EditRule.fifos_keepsValues
    (EditRule.fifos_names.exposes (by decide)) c.processes_sound c.fifos_edits
  have h₆ := lowerBroadcasts_legible h₅ (hhides₅.of_subset (by decide)) c.broadcasts_run
  have hhides₆ := hhides₅.edits EditRule.broadcasts_keepsValues
    (EditRule.broadcasts_names.exposes (by decide)) c.fifos_sound c.broadcasts_edits
  have h₇ := routePacketFlows_legible h₆ c.packets_run
  have hhides₇ := hhides₆.edits EditRule.packets_keepsValues
    (EditRule.packets_names.exposes (by decide)) c.broadcasts_sound c.packets_edits
  exact lowerMulticasts_legible h₇ (hhides₇.of_subset (by decide)) c.multicasts_run

end LoweringRun

/-- **Canonical programs are loaded again.** In a source whose texts can be names, no tree that the
pipeline erases defines a value or has a FIFO, a broadcast or a multicast below its root, and in
every block that becomes a device the FIFOs come before the accesses and the cores. Then no value of
the canonical program is defined twice, every value is defined before it is used, and everything
that is written for it is made of single tokens; and the parser reads from that the program again,
numbered in pre-order and with its texts reread. The number of streams only has to be one that an
integer of the notation can hold. -/
theorem canonicalizeSource_reload {source : String} (hparse : parse source = .ok p)
    (h : canonicalizeSource source = .ok m) (hp : p.StaysLegible) :
    m.Loadable ∧
      parse m.print = .ok ((Program.ofForest m.attributes m.contents).mapTexts reread) := by
  obtain ⟨q, r, ⟨c⟩, hbuffers, hstructured⟩ := canonicalizeSource_run hparse h
  have hr := (c.legible (hp.legible hparse) hp).addresses hbuffers
  obtain ⟨hedits, -⟩ := lowerStructured_edits hr.sound hstructured
  have hm := (hr.structured hedits).loadable
  exact ⟨hm, hm.reload⟩

/-- A FIFO with a process that is registered on it, and a broadcast. -/
def orderedSource : String :=
  "%a = aie.tile(0, 0) %b = aie.tile(0, 2)\n" ++
  "aie.objectfifo(%a, %b) \x7bsize = 16, sym_name = f\x7d\n" ++
  "aie.objectfifo.register_process(@f, consume, @work)\n" ++
  "aiex.broadcast_packet(%a, DMA, 0) \x7b aiex.bp_id(1) \x7b aiex.bp_dest(%b, DMA, 0) \x7d \x7d"

/-- The source is lowered, and what it becomes is loaded again. -/
theorem canonicalizeSource_reload_ordered : ∃ p m, parse orderedSource = .ok p ∧
    canonicalizeSource orderedSource = .ok m ∧ p.StaysLegible ∧ m.Loadable ∧
    parse m.print = .ok ((Program.ofForest m.attributes m.contents).mapTexts reread) := by
  have hsource : ∃ p, parse orderedSource = .ok p ∧ p.StaysLegible :=
    exists_ok_of_any (by decide +kernel)
  have hrun : ∃ m, canonicalizeSource orderedSource = .ok m ∧ m.walk ≠ [] :=
    exists_ok_of_any (by decide +kernel)
  obtain ⟨p, hparse, hp⟩ := hsource
  obtain ⟨m, hm, -⟩ := hrun
  exact ⟨p, m, hparse, hm, hp, canonicalizeSource_reload hparse hm hp⟩

/-- Whether a source is lowered, and what is written for the canonical program is not parsed. -/
def Source.NotReloaded (source : String) : Prop :=
  ∃ m, canonicalizeSource source = .ok m ∧ ∀ n, parse m.print ≠ .ok n

/-- A canonical program that can be written is rejected if it uses a value that is not defined
before. -/
theorem Source.notReloaded_of_run {source : String}
    (h : ∃ m, canonicalizeSource source = .ok m ∧ (∀ id ∈ m.walk, (m.op id).IsWritten) ∧
      (∀ id ∈ m.walk, (m.op id).hasRegion = false → m.walkIn id = []) ∧
      (∀ e ∈ m.attributes.entries, Token.IsLexeme (.ident e.1) ∧ e.2.IsWritten) ∧
      ¬ m.IsScoped) : Source.NotReloaded source := by
  obtain ⟨m, hm, hwritten, hregions, hattributes, hscope⟩ := h
  obtain ⟨hsound, -⟩ := canonicalizeSource_ready hm
  have hprint : m.IsWritten := ⟨hsound.toWellFormed, hwritten, hregions, hattributes⟩
  exact ⟨m, hm, fun n hn => hscope (hprint.reload_iff.1 ⟨n, hn⟩).scope⟩

/-- A core that accesses a FIFO before it. -/
def lateFifoSource : String :=
  "aie.device(ipu) \x7b\n  %t = aie.tile(0, 2)\n  aie.core(%t) \x7b\n" ++
  "    aie.objectfifo.acquire(@f, consume, 1)\n    aie.end\n  \x7d\n" ++
  "  aie.objectfifo(%t, %t) \x7bdepth = 1, size = 4, sym_name = \"f\"\x7d\n\x7d\n"

/-- The canonical programs of three sources are not loaded again: of one with a FIFO after the core
that accesses it, of one with a FIFO below another one, and of one with a value in a terminator. -/
theorem canonicalizeSource_reload_rejected : Source.NotReloaded lateFifoSource ∧
    Source.NotReloaded nestedFifoSource ∧ Source.NotReloaded terminatedLockSource := by
  refine ⟨?_, ?_, ?_⟩ <;> exact Source.notReloaded_of_run (exists_ok_of_any (by decide +kernel))

end TileFlow
