import Mathlib.Data.List.Find
import TileFlow.Memory.Transfer
import TileFlow.Proofs.Program.Graft
import TileFlow.Proofs.Program.Replace
import TileFlow.Proofs.Stage.Edits
import TileFlow.Proofs.Stage.Pipeline
import TileFlow.Proofs.Stage.Kept

/-!
# Instructions in place of transfers

Every transfer of a device is replaced by three instructions, in a loop over the transfers that were
there before it. A transfer below another one goes with it: by its turn it is in a tree set aside,
and what is put before it stays there. So the tree of the device is the one of before with three
leaves in place of each transfer that is below no other one. An allocation below a transfer goes
with it too, and a later transfer is served by the first one that is left.

## Main definitions

* `TransferShape`: what a transfer asks for, and its instructions.
* `queueRegisters`: the registers of the queues.
* `EditRule.transfers`: the edits of the stage.
* `Program.LowersTransfer`: a transfer that is replaced on the way from one program to another.
* `Program.Instructs`: instructions for what a transfer asks for.
* `Program.atTransfer`: the program at the turn of a transfer.
* `Program.allocationWithout?`: the allocation for a symbol when some operations are gone.

## Main results

* `lowerTransfers_device`: the devices after the transfers of one of them are replaced.
* `Pipeline.ipu_device`: a device after the transfers of all of them are replaced.
* `Program.LowersTransfer.instructs`: the instructions for a transfer below no other one.
* `lowerTransfers_contents`: the tree of the program after the transfers of a device are replaced.
-/

namespace TileFlow

open TileFlow.Action

variable {p q r s : Program} {device transfer id first : OpId} {l : List OpId}

/-! ### One transfer -/

/-- What a transfer asks for. -/
structure TransferShape where
  allocation : ShimAllocation
  id : Int
  length : Int
  offset : Int
  argument : Int
  queue : Int

instance : Inhabited TransferShape := ⟨⟨⟨"", 0, 0⟩, 0, 0, 0, 0, 0⟩⟩

/-- The instructions of a transfer: the descriptor is written in the column of the channel, its
address is patched with that of the host buffer, and it is put into the queue of the channel. -/
def TransferShape.instructions (shape : TransferShape) : List Operation :=
  [{ name := "aiex.ipu.writebd_shimtile"
     operands := [.int shape.allocation.column, .int shape.id]
     attributes := .ofList [("buffer_length", .int shape.length),
       ("buffer_offset", .int shape.offset),
       ("arg_idx", .int shape.argument)] },
    { name := "aiex.ipu.address_patch"
      operands := [.int (0x1D004 + 0x20 * shape.id), .int shape.argument, .int shape.offset] },
    { name := "aiex.ipu.write32"
      operands := [.int shape.allocation.column, .int 0]
      attributes := .ofList [("address", .int shape.queue), ("value", .int shape.id)] }]

/-- The registers of the queues of a shim tile, by direction and channel. -/
def queueRegisters : List (String × Int × Int) :=
  [("MM2S", 0, 0x1D214), ("MM2S", 1, 0x1D21C), ("S2MM", 0, 0x1D204), ("S2MM", 1, 0x1D20C)]

/-- A register that starts a channel is the one of its queue. -/
theorem mem_queueRegisters {direction : String} {channel queue : Int}
    (h : queueAddress? direction channel = some queue) :
    (direction, channel, queue) ∈ queueRegisters := by
  unfold queueAddress? at h
  split at h <;> cases h <;> simp [queueRegisters]

/-- What a transfer of a device asks for, as its operation and the allocations of the device
tell. -/
structure TransferShape.ReadFrom (shape : TransferShape) (p : Program) (device transfer : OpId) :
    Prop where
  allocation : ∃ symbol, (p.op transfer).operandSymbol? 0 = some symbol ∧
    p.shimAllocation? device symbol = some shape.allocation
  id : shape.id = ((p.op transfer).intAttr? "id").getD 0
  least : 0 ≤ shape.id
  limit : shape.id < 16
  length : (p.op transfer).intAttr? "length" = some shape.length
  offset : shape.offset = ((p.op transfer).intAttr? "offset").getD 0
  argument : shape.argument = ((p.op transfer).intAttr? "arg_idx").getD 0
  queue : (shape.allocation.direction, shape.allocation.channel, shape.queue) ∈ queueRegisters

/-- A transfer is replaced by its instructions. -/
theorem lowerTransfer_ok (h : runOn (lowerTransfer device transfer) p = (.ok (), q)) :
    ∃ shape : TransferShape, shape.ReadFrom p device transfer ∧
      q = p.replace transfer shape.instructions := by
  rw [lowerTransfer] at h
  dsimp only at h
  rw [get_bind_ok] at h
  obtain ⟨symbol, hsymbol, h⟩ := orFail_bind_ok.1 h
  obtain ⟨allocation, hallocation, h⟩ := orFail_bind_ok.1 h
  obtain ⟨hid, h⟩ := ensure_bind_ok.1 h
  obtain ⟨length, hlength, h⟩ := orFail_bind_ok.1 h
  obtain ⟨queue, hqueue, h⟩ := orFail_bind_ok.1 h
  obtain ⟨_, r₁, h₁, h⟩ := bind_ok.1 h
  obtain ⟨_, r₂, h₂, h⟩ := bind_ok.1 h
  obtain ⟨_, r₃, h₃, h⟩ := bind_ok.1 h
  rw [runOn_insertBefore, Prod.mk.injEq] at h₁ h₂ h₃
  obtain ⟨-, rfl⟩ := h₁
  obtain ⟨-, rfl⟩ := h₂
  obtain ⟨-, rfl⟩ := h₃
  rw [runOn_erase, Prod.mk.injEq] at h
  rw [Bool.and_eq_true, decide_eq_true_eq, decide_eq_true_eq] at hid
  refine ⟨⟨allocation, _, length, _, _, queue⟩, ⟨⟨symbol, hsymbol, hallocation⟩, rfl, hid.1, hid.2,
    hlength, rfl, rfl, mem_queueRegisters hqueue⟩, h.2.symm.trans ?_⟩
  rw [TransferShape.instructions, Int.mul_comm 0x20]
  rfl

/-- The name of a transfer. -/
def transferName : String := "aiex.ipu.dma_memcpy_nd"

/-- The names of the instructions. -/
def instructionNames : List String :=
  ["aiex.ipu.writebd_shimtile", "aiex.ipu.address_patch", "aiex.ipu.write32"]

/-- The instructions of a transfer, by name and without result. -/
theorem TransferShape.mem_instructions {shape : TransferShape} {op : Operation}
    (h : op ∈ shape.instructions) : op.name ∈ instructionNames ∧ op.result = none := by
  rw [instructions] at h
  simp only [List.mem_cons, List.not_mem_nil, or_false] at h
  rcases h with rfl | rfl | rfl <;> exact ⟨by simp [instructionNames], rfl⟩

/-! ### The rule -/

/-- Instructions are created above transfers, which are erased. -/
def EditRule.transfers : EditRule where
  creates p parent op := op.name ∈ instructionNames ∧ ∃ transfer, p.Above transfer parent
  changes _ _ _ := False
  erases p id := (p.op id).is transferName = true

/-- Lowering transfers leaves devices alone. -/
theorem EditRule.transfers_sparesDevices : EditRule.transfers.SparesDevices where
  creates _ _ _ hop := Operation.not_is_of_mem hop.1 (by decide)
  changes _ _ _ hop := hop.elim
  erases _ _ hop := Operation.not_is_of_is hop (by decide)

/-- Lowering transfers erases nothing else. -/
theorem EditRule.transfers_spares {name : String} (hname : transferName ≠ name) :
    EditRule.transfers.Spares name :=
  spares_of_unchanged hname (fun _ _ _ hop => hop) fun _ _ hop => hop

/-- Lowering transfers creates instructions only. -/
theorem EditRule.transfers_names : EditRule.transfers.Names instructionNames where
  creates _ _ _ hop := hop.1
  changes _ _ _ hop := hop.elim

/-- Putting instructions before a transfer, and replacing it by them, are edits by the rules. -/
theorem TransferShape.replace_edits (shape : TransferShape) (hp : p.Tree) (h : p.Linked transfer)
    (his : (p.op transfer).is transferName = true) :
    p.Edits .transfers (p.putAll transfer shape.instructions) ∧
      p.Edits .transfers (p.replace transfer shape.instructions) := by
  have hputs : p.Edits .transfers (p.putAll transfer shape.instructions) :=
    h.putAll_edits hp (fun op hop r parent _ habove => ⟨(mem_instructions hop).1, transfer, habove⟩)
      fun op hop => (mem_instructions hop).2
  have hlinked := h.putAll hp transfer shape.instructions
  have hsame := hputs.sameHeader hp.sound (fun _ _ _ hop => hop) (h.lt_size hp)
  exact ⟨hputs, hputs.trans (.single (.erase transfer (hlinked.lt_size (hp.putAll _ _))
    ((hsame.is transferName).trans his)))⟩

/-! ### A list of transfers -/

/-- The places of the instructions of transfers, which tell the first one of each. -/
def instructionsAt (first : OpId → OpId) (l : List OpId) (x : OpId) : Option (List OpId) :=
  if x ∈ l then some (List.range' (first x) 3) else none

/-- A transfer of a device that is replaced on the way from one program to another, and the first
of its instructions. -/
structure Program.LowersTransfer (p q : Program) (device transfer first : OpId) : Prop where
  exists_run : ∃ (r : Program) (shape : TransferShape), p.Edits .transfers r ∧ r.Tree ∧
    r.Linked transfer ∧ r.slots.size = first ∧ shape.ReadFrom r device transfer ∧
    (r.putAll transfer shape.instructions).Edits .transfers q

/-- A transfer that was lowered in one step is so in the whole run. -/
theorem Program.LowersTransfer.mono (h : r.LowersTransfer s device transfer first)
    (hp : p.Edits .transfers r) (hq : s.Edits .transfers q) :
    p.LowersTransfer q device transfer first := by
  obtain ⟨t, shape, hrt, htree, hlinked, hfirst, hread, hts⟩ := h.exists_run
  exact ⟨t, shape, hp.trans hrt, htree, hlinked, hfirst, hread, hts.trans hq⟩

/-- The instructions of a transfer, as far as the body has them. -/
theorem Program.LowersTransfer.instructions (h : p.LowersTransfer q device transfer first) :
    ∃ (r : Program) (shape : TransferShape), p.Edits .transfers r ∧ r.Edits .transfers q ∧
      shape.ReadFrom r device transfer ∧
      ∀ i op, shape.instructions[i]? = some op → first + i ∈ q.walk → q.op (first + i) = op := by
  obtain ⟨r, shape, hpr, htree, hlinked, rfl, hread, hrq⟩ := h.exists_run
  have hputs : r.Edits .transfers (r.putAll transfer shape.instructions) :=
    hlinked.putAll_edits htree
      (fun op hop r parent _ habove => ⟨(TransferShape.mem_instructions hop).1, transfer, habove⟩)
      fun op hop => (TransferShape.mem_instructions hop).2
  have habove : ∀ (s : Program) parent op, EditRule.transfers.creates s parent op →
      ∃ x, s.Above x parent := fun _ _ _ hop => hop.2
  refine ⟨r, shape, hpr, hputs.trans hrq, hread, fun i op hi hmem => ?_⟩
  exact op_of_putAll htree hlinked habove (fun _ _ _ hop => hop) hi
    (fun op hop r parent habove => ⟨(TransferShape.mem_instructions hop).1, transfer, habove⟩)
    (fun op hop => (TransferShape.mem_instructions hop).2) hrq hmem

/-- Transfers that are replaced one after the other. -/
theorem lowerTransfers_list (hp : p.Tree) (hl : l.Nodup)
    (hlinked : ∀ x ∈ l, p.Linked x ∧ (p.op x).is transferName = true)
    (h : runOn (l.forM (lowerTransfer device)) p = (.ok (), q)) :
    q.Tree ∧ p.Edits .transfers q ∧ ∃ first : OpId → OpId,
      q.body = p.body.expand (instructionsAt first l) ∧
      ∀ x ∈ l, p.LowersTransfer q device x (first x) := by
  induction l generalizing p with
  | nil =>
      obtain rfl := forM_nil_ok.1 h
      exact ⟨hp, .refl, id, (Forest.expand_eq_self fun _ _ => rfl).symm,
        fun _ hx => absurd hx List.not_mem_nil⟩
  | cons x l ih =>
      obtain ⟨r, hx, hrest⟩ := forM_cons_ok.1 h
      obtain ⟨hfresh, hl⟩ := List.nodup_cons.1 hl
      obtain ⟨hplace, his⟩ := hlinked x List.mem_cons_self
      obtain ⟨shape, hread, rfl⟩ := lowerTransfer_ok hx
      obtain ⟨hputs, hreplace⟩ := shape.replace_edits hp hplace his
      have hne : ∀ y ∈ l, y ≠ x := fun y hy heq => hfresh (heq ▸ hy)
      obtain ⟨hq, hedits, first, hbody, hlowers⟩ := ih (hplace.tree_replace hp _) hl
        (fun y hy => by
          obtain ⟨hy', hname⟩ := hlinked y (List.mem_cons_of_mem _ hy)
          have hsame := hreplace.sameHeader hp.sound (fun _ _ _ hop => hop) (hy'.lt_size hp)
          exact ⟨hy'.replace hp (hne y hy) _, (hsame.is transferName).trans hname⟩) hrest
      refine ⟨hq, hreplace.trans hedits, fun y => if y = x then p.slots.size else first y, ?_,
        fun y hy => ?_⟩
      · rw [hbody, hplace.body_replace hp, Forest.expand_expand]
        · refine Forest.expand_congr fun a _ => ?_
          by_cases hax : a = x
          · simp [instructionsAt, hax, TransferShape.instructions]
          · simp [instructionsAt, hax]
        · -- The new instructions are not transfers that are still to come.
          intro a leaves ha b hb
          split at ha
          · obtain rfl := Option.some.inj ha
            refine if_neg fun hbl => ?_
            have hlt := (hlinked b (List.mem_cons_of_mem _ hbl)).1.lt_size hp
            exact absurd (List.mem_range'_1.1 hb).1 (Nat.not_le_of_lt hlt)
          · cases ha
      · rcases List.mem_cons.1 hy with rfl | hy
        · simp only [if_true]
          refine ⟨p, shape, .refl, hp, hplace, rfl, hread, ?_⟩
          have hlinked' := hplace.putAll hp y shape.instructions
          have hsame := hputs.sameHeader hp.sound (fun _ _ _ hop => hop) (hplace.lt_size hp)
          exact Relation.ReflTransGen.head (.erase y (hlinked'.lt_size (hp.putAll _ _))
            ((hsame.is transferName).trans his)) hedits
        · simp only [if_neg (hne y hy)]
          exact (hlowers y hy).mono hreplace .refl

/-! ### Devices -/

/-- What is below a device, as its body shows it. -/
theorem Program.Tree.mem_trees_of_root (hp : p.Tree) (h : id ∈ p.body.roots) :
    (id, p.below id) ∈ p.body.trees := by
  obtain ⟨c, hc⟩ := Forest.mem_roots.1 h
  rwa [below_of_below? (Forest.below?_of_mem_trees hp.distinct_body hc)]

/-- The devices after the transfers of one of them are replaced. -/
theorem lowerTransfers_device (hp : p.Tree) (hdevice : device ∈ p.devices)
    (h : runOn (lowerTransfers device) p = (.ok (), q)) :
    q.Tree ∧ p.Edits .transfers q ∧ ∃ first : OpId → OpId,
      (∀ other ∈ p.devices, q.below other =
        (p.below other).expand (instructionsAt first (p.findIn device transferName))) ∧
      ∀ x ∈ p.findIn device transferName, p.LowersTransfer q device x (first x) := by
  have hwalk := Program.mem_walk_of_mem_devices hdevice
  have hsound := hp.sound
  rw [lowerTransfers, get_bind_ok] at h
  obtain ⟨hq, hedits, first, hbody, hlowers⟩ := lowerTransfers_list hp
    (hsound.toWellFormed.nodup_findIn hwalk transferName) (fun x hx => by
      obtain ⟨hin, hname⟩ := List.mem_filter.1 hx
      exact ⟨hsound.linked (hsound.mem_walk_of_walkIn hwalk hin), hname⟩) h
  refine ⟨hq, hedits, first, fun other hother => ?_, hlowers⟩
  have hroot := (Program.mem_devices.1 hother).1
  have htree := Forest.mem_trees_expand (hp.mem_trees_of_root hroot)
    (g := instructionsAt first (p.findIn device transferName)) (if_neg fun hmem =>
      Program.notMem_walkIn_of_root hsound.toWellFormed hroot hwalk (List.mem_filter.1 hmem).1)
  rw [← hbody] at htree
  exact Program.below_of_below? (Forest.below?_of_mem_trees hq.distinct_body htree)

/-- Other devices whose transfers are replaced leave a device as it is. -/
theorem lowerTransfers_others (hp : p.Tree) (hdevice : device ∈ p.devices)
    (hl : ∀ other ∈ l, other ∈ p.devices ∧ other ≠ device)
    (h : runOn (l.forM lowerTransfers) p = (.ok (), q)) :
    q.Tree ∧ p.Edits .transfers q ∧ q.below device = p.below device := by
  refine forM_induction (I := fun q => q.Tree ∧ p.Edits .transfers q ∧
    q.below device = p.below device) h ⟨hp, .refl, rfl⟩ ?_
  intro other hother r s hr hround
  obtain ⟨hr, hpr, hbelow⟩ := hr
  obtain ⟨hother, hne⟩ := hl other hother
  have hdevices : ∀ d ∈ p.devices, d ∈ r.devices := fun d =>
    (hpr.mem_devices EditRule.transfers_sparesDevices hp.sound).2
  obtain ⟨hs, hrs, first, hexpand, -⟩ := lowerTransfers_device hr (hdevices other hother) hround
  refine ⟨hs, hpr.trans hrs, ?_⟩
  rw [hexpand device (hdevices device hdevice), hbelow]
  refine Forest.expand_eq_self fun a ha => if_neg fun hmem => hne ?_
  exact Program.device_eq_of_within hr.sound.toWellFormed
    (Program.mem_devices.1 (hdevices other hother)).1
    (Program.mem_devices.1 (hdevices device hdevice)).1 (.inr (List.mem_filter.1 hmem).1)
    (.inr (by rwa [Program.walkIn, hbelow]))

/-- Transfers that are replaced leave those of a device that stays. -/
theorem Program.Edits.findIn_transfers (hp : p.Sound) (h : p.Edits .transfers q)
    (hbelow : q.below device = p.below device) :
    q.findIn device transferName = p.findIn device transferName := by
  rw [findIn, findIn, walkIn, walkIn, hbelow]
  refine List.filter_congr fun x hx => ?_
  exact (h.sameHeader hp (fun _ _ _ hop => hop) (hp.lt_size_of_walkIn hx)).is _

/-- A device after the transfers of all devices are replaced. -/
theorem Pipeline.ipu_device (hp : p.Tree) (hdevice : device ∈ p.devices)
    (h : ipu.run p = (.ok (), q)) : q.Tree ∧ p.Edits .transfers q ∧ ∃ first : OpId → OpId,
      q.below device =
        (p.below device).expand (instructionsAt first (p.findIn device transferName)) ∧
      ∀ x ∈ p.findIn device transferName, p.LowersTransfer q device x (first x) := by
  obtain ⟨r, hrun, hrest⟩ := runStages_cons_ok.1 h
  obtain rfl : r = q := (Prod.mk.inj hrest).2
  change runOn (Stage.onEachDevice lowerTransfers) p = (.ok (), r) at hrun
  rw [Stage.onEachDevice, get_bind_ok] at hrun
  obtain ⟨l₁, l₂, s, t, hothers, hbefore, hown, hafter⟩ :=
    forM_split (List.Pairwise.filter _ hp.distinct_body.nodup_roots) hdevice hrun
  obtain ⟨hs, hps, hbelow⟩ := lowerTransfers_others hp hdevice
    (fun other hother => hothers other (List.mem_append_left _ hother)) hbefore
  have hsdevices : ∀ d ∈ p.devices, d ∈ s.devices := fun d =>
    (hps.mem_devices EditRule.transfers_sparesDevices hp.sound).2
  obtain ⟨ht, hst, first, hexpand, hlowers⟩ :=
    lowerTransfers_device hs (hsdevices device hdevice) hown
  have htdevices : ∀ d ∈ p.devices, d ∈ t.devices := fun d hd =>
    (hst.mem_devices EditRule.transfers_sparesDevices hs.sound).2 (hsdevices d hd)
  obtain ⟨hr, htr, hkept⟩ := lowerTransfers_others ht (htdevices device hdevice)
    (fun other hother => by
      obtain ⟨hmem, hne⟩ := hothers other (List.mem_append_right _ hother)
      exact ⟨htdevices other hmem, hne⟩) hafter
  have hfind := hps.findIn_transfers hp.sound hbelow
  rw [hexpand device (hsdevices device hdevice), hfind, hbelow] at hkept
  rw [hfind] at hlowers
  exact ⟨hr, hps.trans (hst.trans htr), first, hkept, fun x hx => (hlowers x hx).mono hps htr⟩

/-! ### Transfers below no other one -/

/-- The instructions of a transfer that is below no other one are in the device. -/
theorem Program.Tree.mem_walkIn_instructions (hp : p.Tree) (hdevice : device ∈ p.devices)
    {start : OpId → OpId} (hbelow : q.below device =
      (p.below device).expand (instructionsAt start (p.findIn device transferName)))
    (htransfer : transfer ∈ p.findIn device transferName)
    (hout : ∀ other ∈ p.findIn device transferName, transfer ∉ p.walkIn other) {i : Nat}
    (hi : i < 3) : start transfer + i ∈ q.walkIn device := by
  obtain ⟨g, hg, rfl⟩ := exists_below (mem_walk_of_mem_devices hdevice)
  rw [walkIn, hbelow]
  refine Forest.mem_preorder_expand (hp.distinct_body.below hg).1 (List.mem_filter.1 htransfer).1
    (if_pos htransfer) (fun other k hother hmem => if_neg fun hfind => hout other hfind ?_)
    (List.mem_range'_1.2 ⟨Nat.le_add_right _ _, Nat.add_lt_add_left hi _⟩)
  rwa [walkIn, below_of_below? (Forest.below?_trans hp.distinct_body hg hother)]

/-- Whether the three instructions of a transfer are in a device, one after the other. -/
structure Program.Instructs (p : Program) (device first : OpId) (shape : TransferShape) : Prop where
  present : ∀ i < 3, first + i ∈ p.walkIn device
  ops : [p.op first, p.op (first + 1), p.op (first + 2)] = shape.instructions

/-- A transfer whose instructions are there has become what it asks for, by the allocation that its
symbol has at all times. -/
theorem Program.LowersTransfer.instructs {allocation : ShimAllocation} {symbol : String}
    (h : p.LowersTransfer q device transfer first) (hp : p.Sound)
    (htransfer : transfer ∈ p.findIn device transferName)
    (hsymbol : (p.op transfer).operandSymbol? 0 = some symbol)
    (hallocation : ∀ r, p.Edits .transfers r → r.shimAllocation? device symbol = some allocation)
    (hdevice : device ∈ q.walk) (hmem : ∀ i < 3, first + i ∈ q.walkIn device) :
    ∃ shape : TransferShape, shape.ReadFrom p device transfer ∧ shape.allocation = allocation ∧
      q.Instructs device first shape := by
  obtain ⟨r, shape, hpr, hrq, hread, hops⟩ := h.instructions
  have hwalk : ∀ i < 3, first + i ∈ q.walk := fun i hi =>
    ((hpr.trans hrq).sound hp).mem_walk_of_walkIn hdevice (hmem i hi)
  have hsame : (p.op transfer).SameHeader (r.op transfer) :=
    hpr.sameHeader hp (fun _ _ _ hop => hop) (hp.lt_size_of_walkIn (List.mem_filter.1 htransfer).1)
  obtain ⟨symbol', hsymbol', hshape⟩ := hread.allocation
  obtain rfl : symbol = symbol' :=
    Option.some.inj (hsymbol.symm.trans ((hsame.operandSymbol? 0).symm.trans hsymbol'))
  obtain rfl : shape.allocation = allocation :=
    Option.some.inj (hshape.symm.trans (hallocation r hpr))
  refine ⟨shape, ⟨⟨symbol, hsymbol, hallocation p .refl⟩, ?_, hread.least, hread.limit, ?_, ?_, ?_,
    hread.queue⟩, rfl, hmem, ?_⟩
  · exact (hsame.intAttr? "id") ▸ hread.id
  · exact (hsame.intAttr? "length").symm.trans hread.length
  · exact (hsame.intAttr? "offset") ▸ hread.offset
  · exact (hsame.intAttr? "arg_idx") ▸ hread.argument
  · have hdescriptor : q.op first = _ := hops 0 _ rfl (hwalk 0 (by decide))
    have hpatch : q.op (first + 1) = _ := hops 1 _ rfl (hwalk 1 (by decide))
    have hqueue : q.op (first + 2) = _ := hops 2 _ rfl (hwalk 2 (by decide))
    rw [hdescriptor, hpatch, hqueue]
    rfl

/-! ### The tree of the program -/

/-- What takes the place of a transfer: the instructions of what it asks for. -/
def Program.InstructionLeaves (p : Program) (device transfer : OpId)
    (G : Forest Operation) : Prop :=
  ∃ shape : TransferShape, shape.ReadFrom p device transfer ∧ G = .leaves shape.instructions .nil

/-- A transfer is replaced by leaves. -/
theorem lowerTransfer_grafts (hp : p.Tree) (hregions : p.OwnsRegions) (h : p.Linked transfer)
    (hrun : runOn (lowerTransfer device transfer) p = (.ok (), q)) :
    ∃ F, p.Grafts transfer F q ∧ p.InstructionLeaves device transfer (F.map q.op) := by
  obtain ⟨shape, hread, rfl⟩ := lowerTransfer_ok hrun
  obtain ⟨F, hF, hmap⟩ := h.grafts_replace hp hregions shape.instructions
  exact ⟨F, hF, shape, hread, hmap⟩

/-- The program at the turn of a transfer of a device, when those before it have been replaced. -/
def Program.atTransfer (p : Program) (device transfer : OpId) : Program :=
  p.turn (lowerTransfer device) (p.findIn device transferName) transfer

/-- The first allocation of a device for a symbol, if some operations had never been there. -/
def Program.allocationWithout? (p : Program) (device : OpId) (gone : List OpId) (symbol : String) :
    Option ShimAllocation :=
  ((((p.below device).prune fun y => decide (y ∈ gone)).preorder.filter fun id =>
      (p.op id).is "aie.shim_dma_allocation").find? fun id =>
    (p.op id).operandSymbol? 0 == some symbol).bind fun id => (p.op id).allocation?

/-- The transfers of a list are replaced by instructions, which are no allocations. -/
theorem Program.GraftsEach.shimAllocation? {F : OpId → Forest OpId} {f : OpId → Action Unit}
    (h : p.GraftsEach f l (fun r => r.InstructionLeaves device) F q) (hp : p.Tree)
    (hdevice : device ∈ p.walk) (hnot : device ∉ l) (hout : ∀ y ∈ l, device ∉ p.walkIn y)
    (symbol : String) :
    q.shimAllocation? device symbol = p.allocationWithout? device l symbol := by
  have hname : ∀ y ∈ l, ∀ id ∈ (F y).preorder,
      (q.op id).is "aie.shim_dma_allocation" = false := fun y hy id hid => by
    obtain ⟨shape, -, heq⟩ := h.turns y hy
    exact Operation.not_is_of_mem
      (TransferShape.mem_instructions (Forest.mem_of_map_eq_leaves heq hid)).1 (by decide)
  have hop : ∀ id ∈ ((p.below device).prune fun y => decide (y ∈ l)).preorder.filter
      (fun id => (p.op id).is "aie.shim_dma_allocation"), q.op id = p.op id := fun id hid =>
    h.op id (hp.sound.lt_size_of_walkIn (Forest.mem_preorder_of_prune (List.mem_filter.1 hid).1).1)
  rw [Program.shimAllocation?, h.findIn hp hdevice hnot hout hname, allocationWithout?,
    List.find?_congr fun id hid => by rw [hop id hid]]
  exact Option.bind_congr fun id hid => by rw [hop id (List.mem_of_find?_eq_some hid)]

/-- **Transfers in place.** When the transfers of a device are replaced, the tree of the program is
the one of before with three instructions in the place of every transfer that is below no other one.
They are those that the transfer and the first allocation for its symbol ask for, among the
allocations that are not below a transfer that was replaced before. -/
theorem lowerTransfers_contents (hp : p.Tree) (hregions : p.OwnsRegions) (hdevice : device ∈ p.walk)
    (h : runOn (lowerTransfers device) p = (.ok (), q)) :
    ∃ shape : OpId → TransferShape,
      q.contents = p.body.graft (p.expansion device transferName fun _ x =>
        .leaves (shape x).instructions .nil) p.op ∧
      ∀ x ∈ p.findIn device transferName,
        (shape x).ReadFrom (p.atTransfer device x) device x ∧
        (p.atTransfer device x).op x = p.op x ∧
        ∀ symbol, (p.atTransfer device x).shimAllocation? device symbol =
          p.allocationWithout? device ((p.findIn device transferName).takeWhile (· ≠ x))
    symbol := by
  rw [lowerTransfers, get_bind_ok] at h
  change runOn ((p.findIn device transferName).forM (lowerTransfer device)) p = (.ok (), q) at h
  have hlinked : ∀ x ∈ p.findIn device transferName, p.Linked x := hp.linked_of_findIn hdevice
  have hnodup := hp.sound.nodup_findIn hdevice transferName
  have hround := fun x (r s : Program) (hr : r.Tree) hregions hx
    (hs : runOn (lowerTransfer device x) r = (.ok (), s)) => lowerTransfer_grafts hr hregions hx hs
  obtain ⟨F, hF⟩ := Program.graftsEach (D := fun r => r.InstructionLeaves device) hround hp hregions
    hlinked hnodup h
  choose! shape hshape using hF.turns
  refine ⟨shape, ?_, fun x hx => ?_⟩
  · rw [hF.contents hp]
    refine congrArg (fun g => Forest.graft g p.op p.body) (funext fun x => ?_)
    rw [Program.expansion]
    split
    · rename_i hx
      rw [(hshape x hx).2]
    · rfl
  · obtain ⟨F', hF'⟩ := Program.graftsEach_turn (D := fun r => r.InstructionLeaves device) hround hp
      hregions hlinked hnodup h hx
    have hsub : ((p.findIn device transferName).takeWhile (· ≠ x)).Sublist _ :=
      List.takeWhile_sublist _
    refine ⟨(hshape x hx).1, hF'.op x ((hlinked x hx).lt_size hp), hF'.shimAllocation? hp hdevice
      (fun hmem => ?_) fun y hy => hp.notMem_walkIn_of_findIn hdevice y (hsub.subset hy)⟩
    -- No operation is below itself.
    exact hp.notMem_walkIn_of_findIn hdevice device (hsub.subset hmem)
      (List.mem_filter.1 (hsub.subset hmem)).1

/-- Two transfers with another operation between them. The first one has an allocation below it. -/
def transferProgram : Program :=
  .ofForest .empty <| .single
    { name := "aie.device", operands := [.ident "ipu"], hasRegion := true }
    (.cons { name := "func.func", operands := [.symbol "sequence"], hasRegion := true }
      (.cons { name := transferName, operands := [.symbol "in"], hasRegion := true
               attributes := .ofList [("id", .int 1), ("length", .int 64)] }
        (.leaves [{ name := "aie.shim_dma_allocation"
                    operands := [.symbol "in", .ident "MM2S", .int 0, .int 7] }] .nil)
        (.leaves [{ name := "aiex.ipu.sync" },
          { name := transferName, operands := [.symbol "in"]
            attributes := .ofList [("length", .int 32), ("offset", .int 8)] }] .nil))
      (.leaves [{ name := "aie.shim_dma_allocation"
                  operands := [.symbol "in", .ident "MM2S", .int 1, .int 2] }] .nil))

/-- The allocation below the first transfer serves that one, and is gone for the second one. -/
theorem lowerTransfers_contents_ofForest : ∃ q,
    runOn (lowerTransfers 0) transferProgram = (.ok (), q) ∧
    (∃ shape : OpId → TransferShape, q.contents = transferProgram.body.graft
      (transferProgram.expansion 0 transferName fun _ x => .leaves (shape x).instructions .nil)
        transferProgram.op) ∧
    q.contents.preorder = [{ name := "aie.device", operands := [.ident "ipu"], hasRegion := true },
      { name := "func.func", operands := [.symbol "sequence"], hasRegion := true },
      { name := "aiex.ipu.writebd_shimtile", operands := [.int 7, .int 1]
        attributes := .ofList [("buffer_length", .int 64), ("buffer_offset", .int 0),
          ("arg_idx", .int 0)] },
      { name := "aiex.ipu.address_patch", operands := [.int 0x1D024, .int 0, .int 0] },
      { name := "aiex.ipu.write32", operands := [.int 7, .int 0]
        attributes := .ofList [("address", .int 0x1D214), ("value", .int 1)] },
      { name := "aiex.ipu.sync" },
      { name := "aiex.ipu.writebd_shimtile", operands := [.int 2, .int 0]
        attributes := .ofList [("buffer_length", .int 32), ("buffer_offset", .int 8),
          ("arg_idx", .int 0)] },
      { name := "aiex.ipu.address_patch", operands := [.int 0x1D004, .int 0, .int 8] },
      { name := "aiex.ipu.write32", operands := [.int 2, .int 0]
        attributes := .ofList [("address", .int 0x1D21C), ("value", .int 0)] },
      { name := "aie.shim_dma_allocation"
        operands := [.symbol "in", .ident "MM2S", .int 1, .int 2] }] := by
  have hok : (runOn (lowerTransfers 0) transferProgram).1 = .ok () := by decide +kernel
  have hrun : runOn (lowerTransfers 0) transferProgram =
      (.ok (), (runOn (lowerTransfers 0) transferProgram).2) := Prod.ext hok rfl
  have hp : transferProgram.Tree := (Program.wellFormed_ofForest _ _).tree rfl
  have hregions : transferProgram.OwnsRegions := hp.ownsRegions (by decide +kernel)
  obtain ⟨shape, hcontents, -⟩ := lowerTransfers_contents hp hregions (by decide +kernel) hrun
  exact ⟨_, hrun, ⟨shape, hcontents⟩, by decide +kernel⟩

end TileFlow
