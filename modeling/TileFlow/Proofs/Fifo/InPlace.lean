import TileFlow.Proofs.Fifo.Parts
import TileFlow.Proofs.Program.Graft
import TileFlow.Proofs.Source.Written
import TileFlow.Proofs.Stage.Pipeline

/-!
# Object FIFOs in place

The FIFOs of a device are replaced one after the other, each by its parts, and its accesses become
uses of its locks. FIFOs have nothing below them, so that none of them is lost before its turn, and
no part is an access of a later one. In the end, the tree of the program has the parts of every FIFO
where the FIFO was.

## Main definitions

* `Program.LowersFifo`, `Program.LowersFifos`: what becomes of a FIFO, and of the FIFOs of a list.
* `Program.atFifo`: the program at the turn of a FIFO.

## Main results

* `lowerObjectFifo_parts`: one FIFO.
* `lowerObjectFifos_contents`: all FIFOs of a device.
-/

namespace TileFlow

open TileFlow.Action

variable {p q r : Program} {device fifo : OpId}

/-! ### One FIFO -/

/-- A program with the parts of a FIFO in its place and its accesses lowered, and else as it was. -/
structure Program.LowersFifo (p : Program) (device fifo : OpId) (x : FifoParts) (F : Forest OpId)
    (q : Program) : Prop where
  tree : q.Tree
  regions : q.OwnsRegions
  edits : p.Edits .fifos q
  body : q.body = p.body.graft (Forest.only fifo F) id
  new : ∀ id ∈ F.preorder, p.slots.size ≤ id ∧ id < q.slots.size
  leaves : F.map q.op = .leaves x.operations .nil
  op : ∀ id < p.slots.size, q.op id =
    if id ∈ p.walkIn device then lowerAccess x.shape.name x.locks (p.op id) else p.op id
  reads : x.ReadFrom p device fifo

/-- What becomes of an operation when the accesses of a FIFO are lowered. -/
theorem FifoRun.accessed_op (f : FifoRun device fifo p) (hsound : f.streamed.Sound)
    (hdevice : device ∈ f.streamed.devices) (id : OpId) :
    f.accessed.op id = if id ∈ f.streamed.walkIn device then
      lowerAccess f.shape.name f.locks (f.streamed.op id) else f.streamed.op id := by
  obtain ⟨hedited, hlowered⟩ := lowerAccesses_edited hsound hdevice f.accesses
  split
  · rename_i hid
    exact hlowered id hid
  · rename_i hid
    exact hedited.kept id hid

/-- The tree stays when the accesses of a FIFO are lowered. -/
theorem FifoRun.accessed_tree (f : FifoRun device fifo p) (htree : f.streamed.Tree)
    (hregions : f.streamed.OwnsRegions) : f.accessed.Tree ∧ f.accessed.OwnsRegions := by
  refine forM_induction (I := fun r => r.Tree ∧ r.OwnsRegions) f.accesses ⟨htree, hregions⟩
    fun id _ r s hr hrun => ?_
  rw [runOn_update, Prod.mk.injEq] at hrun
  obtain ⟨-, rfl⟩ := hrun
  exact ⟨hr.1.modify _ _, hr.2.modify hr.1 (hasRegion_lowerAccess ..)⟩

/-- One FIFO is replaced by its parts. -/
theorem lowerObjectFifo_parts (hp : p.Tree) (hregions : p.OwnsRegions)
    (hvalues : p.definedValues.Nodup) (hdevice : device ∈ p.devices)
    (hfifo : fifo ∈ p.findIn device "aie.objectfifo")
    (h : runOn (lowerObjectFifo device fifo) p = (.ok (), q)) :
    ∃ x F, p.LowersFifo device fifo x F q := by
  obtain ⟨f, rfl⟩ := lowerObjectFifo_run h
  obtain ⟨hin, his⟩ := List.mem_filter.1 hfifo
  have hwalk := Program.mem_walk_of_mem_devices hdevice
  have hlt := hp.sound.lt_size_of_walkIn hin
  have hmem := hp.sound.mem_walk_of_walkIn hwalk hin
  have hhosts : Hosts p device fifo f.shape :=
    ⟨hp.sound, hvalues, hdevice, hlt, his, fun _ => hin, f.read.producer, f.read.consumer⟩
  obtain ⟨x, hshape, hlocks, hreads, hstreamed⟩ := f.exists_parts
    ⟨hp.sound, hvalues, (Program.mem_devices.1 hdevice).1, hin⟩
  obtain ⟨F, hputs, hmap⟩ := (hp.sound.linked hmem).puts_putAll hp hregions x.operations
  rw [← hstreamed] at hputs hmap
  refine ⟨x, F, ?_⟩
  obtain ⟨h₁, h₂, h₃, h₄⟩ := f.parts hhosts
  have hparts := ((h₁.trans h₂).trans h₃).trans h₄
  have hdeviceStreamed := (hhosts.edits hparts).inDevice
  have haccessed : p.Edits .fifos f.accessed := hparts.fifos.trans
    (lowerAccesses_changes hputs.tree.sound (fun _ _ => ⟨_, _, rfl⟩) f.accesses)
  have hop := f.accessed_op hputs.tree.sound hdeviceStreamed
  rw [← hshape, ← hlocks] at hop
  obtain ⟨hedited, -⟩ := lowerAccesses_edited hputs.tree.sound hdeviceStreamed f.accesses
  obtain ⟨htree, howns⟩ := f.accessed_tree hputs.tree hputs.regions
  have hltaccessed : fifo < f.accessed.slots.size :=
    hedited.size ▸ Nat.lt_of_lt_of_le hlt hputs.evolves.size
  have hislast : (f.accessed.op fifo).is "aie.objectfifo" = true := by
    rw [hop, hputs.op fifo hlt]
    split
    · rwa [is_lowerAccess _ _ _ (by decide)]
    · exact his
  constructor
  case tree => exact htree.erase hltaccessed
  case regions => exact howns.erase htree hltaccessed
  case edits => exact haccessed.trans (.single (.erase fifo hltaccessed hislast))
  case body =>
    rw [Program.body_erase, hedited.body, hputs.body,
      Forest.remove_putTrees hp.distinct_body (hputs.notMem hlt)]
  case new =>
    intro id hid
    rw [Program.size_erase, hedited.size]
    exact hputs.new id hid
  case leaves =>
    rw [← hmap]
    refine Forest.map_congr fun id hid => ?_
    have hpart : f.streamed.op id ∈ x.operations := Forest.mem_of_map_eq_leaves hmap hid
    rw [Program.op_erase, hop,
      Operation.lowerAccess_of_not_accesses (FifoParts.not_accesses hpart), ite_self]
  case op =>
    intro id hid
    have hiff := hputs.evolves.mem_walkIn_iff hp.sound
      (fun _ => hparts.mem_walk (fun _ _ hfalse => hfalse) hp.sound) hwalk hid
    rw [Program.op_erase, hop, hputs.op id hid]
    exact if_congr hiff rfl rfl
  case reads => exact hreads

/-! ### All FIFOs of a device -/

/-- FIFOs of a device, each with a name of its own and without a region. -/
structure Program.SeparateFifos (p : Program) (device : OpId) (l : List OpId) : Prop where
  distinct : l.Nodup
  found : ∀ x ∈ l, x ∈ p.findIn device "aie.objectfifo"
  leaf : ∀ x ∈ l, (p.op x).hasRegion = false
  names : (l.map fun x => (p.op x).textAttr? "sym_name").Nodup

/-- Programs with the parts of FIFOs in their places and their accesses lowered, each FIFO as the
program at its turn tells, and else as they were. -/
structure Program.LowersFifos (p : Program) (device : OpId) (l : List OpId)
    (parts : OpId → FifoParts) (F : OpId → Forest OpId) (q : Program) : Prop where
  body : q.body = p.body.graft (fun x => if x ∈ l then some (F x) else none) id
  size : p.slots.size ≤ q.slots.size
  new : ∀ x ∈ l, ∀ id ∈ (F x).preorder, p.slots.size ≤ id
  leaves : ∀ x ∈ l, (F x).map q.op = .leaves (parts x).operations .nil
  reads : ∀ x ∈ l, (parts x).ReadFrom (p.turn (lowerObjectFifo device) l x) device x ∧
    (p.turn (lowerObjectFifo device) l x).op x = p.op x
  lowered : ∀ x ∈ l, ∀ id ∈ p.walkIn device, ∀ access side n,
    (p.op id).Accesses (parts x).shape.name access side n →
      q.op id = lowerAccess (parts x).shape.name (parts x).locks (p.op id)
  kept : ∀ id < p.slots.size, (∀ x ∈ l, id ∈ p.walkIn device → ∀ access side n,
    ¬(p.op id).Accesses (parts x).shape.name access side n) → q.op id = p.op id

namespace Program.LowersFifo

variable {first : FifoParts} {G : Forest OpId} {x y : OpId} {l : List OpId}

/-- What is not below the FIFO stays. -/
theorem mem_walk (h : p.LowersFifo device x first G r) (hp : p.Tree) (hy : y ∈ p.walk)
    (hne : y ≠ x) (hout : y ∉ p.walkIn x) : y ∈ r.walk := by
  obtain ⟨k, hk, -⟩ := exists_below hy
  have hbelow := Forest.below?_graft hp.distinct_body hk (Forest.only_of_ne hne G)
    (fun z k' hz hmem => Forest.only_of_ne (by
      rintro rfl
      exact hout (by rwa [walkIn, below_of_below? hz])) G)
    (fun a G' ha hmem => by
      obtain ⟨-, rfl⟩ := Forest.only_eq_some ha
      exact absurd (hp.sound.created y hy) (Nat.not_lt.2 (h.new y hmem).1))
  rw [← h.body] at hbelow
  exact Forest.mem_preorder_of_below? hbelow

/-- What is below the device stays below it, apart from the FIFO. -/
theorem mem_walkIn (h : p.LowersFifo device x first G r) (hp : p.Tree) (hregions : p.OwnsRegions)
    (hdevice : device ∈ p.devices) (hleaf : (p.op x).hasRegion = false) (hy : y ∈ p.walkIn device)
    (hne : y ≠ x) : y ∈ r.walkIn device := by
  have hwalk := mem_walk_of_mem_devices hdevice
  have hrwalk := mem_walk_of_mem_devices
    ((h.edits.mem_devices EditRule.fifos_sparesDevices hp.sound).2 hdevice)
  have hmem := h.mem_walk hp (hp.sound.mem_walk_of_walkIn hwalk hy) hne (by
    rw [hregions.walkIn_eq_nil hleaf]
    exact List.not_mem_nil)
  exact ((h.edits.evolves hp.sound).walkIn device hrwalk y hmem (hp.sound.lt_size_of_walkIn hy)).2
    ⟨hp.sound.created device hwalk, hy⟩

/-- What is no access of the FIFO stays as it is. -/
theorem op_eq (h : p.LowersFifo device x first G r) (hy : y < p.slots.size)
    (hnot : y ∈ p.walkIn device → ∀ access side n,
      ¬(p.op y).Accesses first.shape.name access side n) : r.op y = p.op y := by
  rw [h.op y hy]
  split
  · rename_i hin
    exact Operation.lowerAccess_of_not_accesses (hnot hin) _
  · rfl

/-- After one FIFO is lowered the others are still apart, and still as they were. -/
theorem separate (h : p.LowersFifo device x first G r) (hp : p.Tree) (hregions : p.OwnsRegions)
    (hdevice : device ∈ p.devices) (hl : p.SeparateFifos device (x :: l)) :
    r.SeparateFifos device l ∧ ∀ y ∈ l, r.op y = p.op y := by
  obtain ⟨hxl, hnodup⟩ := List.nodup_cons.1 hl.distinct
  have hsame : ∀ y ∈ l, r.op y = p.op y := fun y hy => by
    obtain ⟨hin, his⟩ := List.mem_filter.1 (hl.found y (List.mem_cons_of_mem _ hy))
    exact h.op_eq (hp.sound.lt_size_of_walkIn hin) fun _ => Operation.not_accesses_of_fifo his
  refine ⟨⟨hnodup, fun y hy => ?_, fun y hy => ?_, ?_⟩, hsame⟩
  · obtain ⟨hin, his⟩ := List.mem_filter.1 (hl.found y (List.mem_cons_of_mem _ hy))
    refine List.mem_filter.2 ⟨h.mem_walkIn hp hregions hdevice (hl.leaf x List.mem_cons_self) hin
      fun heq => hxl (heq ▸ hy), by rwa [hsame y hy]⟩
  · rw [hsame y hy]
    exact hl.leaf y (List.mem_cons_of_mem _ hy)
  · rw [List.map_congr_left fun y hy => by rw [hsame y hy]]
    exact (List.nodup_cons.1 hl.names).2

variable {parts : OpId → FifoParts} {F : OpId → Forest OpId} {access : Access}
    {side : Side} {n : Int}

/-- FIFOs with names of their own have parts with names of their own. -/
theorem name_ne (h : p.LowersFifo device x first G r) (hF : r.LowersFifos device l parts F q)
    (hl : p.SeparateFifos device (x :: l)) (hsame : ∀ y ∈ l, r.op y = p.op y) (hy : y ∈ l) :
    first.shape.name ≠ (parts y).shape.name := fun heq => by
  obtain ⟨hread, hop⟩ := hF.reads y hy
  have hname := hread.shape.name
  rw [hop, hsame y hy, ← heq, ← h.reads.shape.name] at hname
  exact (List.nodup_cons.1 hl.names).1 (List.mem_map.2 ⟨y, hy, hname⟩)

/-- The parts of the first FIFO stay where they have been put. -/
theorem body_cons (h : p.LowersFifo device x first G r) (hp : p.Tree)
    (hl : p.SeparateFifos device (x :: l)) (hF : r.LowersFifos device l parts F q) :
    q.body = p.body.graft
      (fun y => if y ∈ x :: l then some (Function.update F x G y) else none) id := by
  have hxl := (List.nodup_cons.1 hl.distinct).1
  rw [hF.body, h.body, Forest.graft_graft]
  · refine congrArg (fun g => Forest.graft g id p.body) (funext fun y => ?_)
    by_cases hyx : y = x
    · subst hyx
      simp [Forest.map_eq_self]
    · simp [Forest.only_of_ne hyx, hyx]
  · -- No later FIFO is among them: they are new.
    intro a K ha c hc
    obtain ⟨-, rfl⟩ := Forest.only_eq_some ha
    refine if_neg fun hcl => absurd ?_ (Nat.not_lt.2 (h.new c hc).1)
    exact hp.sound.lt_size_of_walkIn
      (List.mem_filter.1 (hl.found c (List.mem_cons_of_mem _ hcl))).1

/-- The accesses of the first FIFO are uses of its locks, and so no accesses of a later one. -/
theorem lowered_first (h : p.LowersFifo device x first G r) (hp : p.Tree)
    (hF : r.LowersFifos device l parts F q) {id : OpId} (hid : id ∈ p.walkIn device)
    (haccess : (p.op id).Accesses first.shape.name access side n) :
    q.op id = lowerAccess first.shape.name first.locks (p.op id) := by
  have hlt := hp.sound.lt_size_of_walkIn hid
  have hop : r.op id = lowerAccess first.shape.name first.locks (p.op id) := by
    rw [h.op id hlt, if_pos hid]
  have hsize := (h.edits.evolves hp.sound).size
  rw [hF.kept id (Nat.lt_of_lt_of_le hlt hsize) fun y _ _ => ?_, hop]
  refine Operation.not_accesses ?_
  rw [hop, (haccess.usesLock first.locks).name]
  decide

/-- The accesses of a later FIFO are as they were when its turn comes. -/
theorem lowered_later (h : p.LowersFifo device x first G r) (hp : p.Tree) (hregions : p.OwnsRegions)
    (hdevice : device ∈ p.devices) (hl : p.SeparateFifos device (x :: l))
    (hF : r.LowersFifos device l parts F q) (hy : y ∈ l)
    (hname : first.shape.name ≠ (parts y).shape.name) {id : OpId} (hid : id ∈ p.walkIn device)
    (haccess : (p.op id).Accesses (parts y).shape.name access side n) :
    q.op id = lowerAccess (parts y).shape.name (parts y).locks (p.op id) := by
  have hop : r.op id = p.op id := by
    rw [h.op id (hp.sound.lt_size_of_walkIn hid), if_pos hid, haccess.lowerAccess_eq hname]
  have hne : id ≠ x := by
    rintro rfl
    exact Operation.not_accesses_of_fifo
      (List.mem_filter.1 (hl.found id List.mem_cons_self)).2 access side n haccess
  have hidr := h.mem_walkIn hp hregions hdevice (hl.leaf x List.mem_cons_self) hid hne
  rw [hF.lowered y hy id hidr access side n (hop ▸ haccess), hop]

/-- Another FIFO after the first ones. -/
theorem cons (h : p.LowersFifo device x first G r) (hp : p.Tree) (hregions : p.OwnsRegions)
    (hdevice : device ∈ p.devices) (hl : p.SeparateFifos device (x :: l))
    (hx : runOn (lowerObjectFifo device x) p = (.ok (), r))
    (hF : r.LowersFifos device l parts F q) :
    p.LowersFifos device (x :: l) (Function.update parts x first) (Function.update F x G) q := by
  have hxl := (List.nodup_cons.1 hl.distinct).1
  have hne : ∀ y ∈ l, y ≠ x := fun y hy heq => hxl (heq ▸ hy)
  have hev := h.edits.evolves hp.sound
  have hrwalk := mem_walk_of_mem_devices
    ((h.edits.mem_devices EditRule.fifos_sparesDevices hp.sound).2 hdevice)
  have hsame := (h.separate hp hregions hdevice hl).2
  have hupdateF : ∀ y ∈ l, Function.update F x G y = F y := fun y hy =>
    Function.update_of_ne (hne y hy) _ _
  have hupdate : ∀ y ∈ l, Function.update parts x first y = parts y := fun y hy =>
    Function.update_of_ne (hne y hy) _ _
  constructor
  case body => exact h.body_cons hp hl hF
  case size => exact Nat.le_trans hev.size hF.size
  case new =>
    refine List.forall_mem_cons.2 ⟨fun id hid => ?_, fun y hy id hid => ?_⟩
    · rw [Function.update_self] at hid
      exact (h.new id hid).1
    · rw [hupdateF y hy] at hid
      exact Nat.le_trans hev.size (hF.new y hy id hid)
  case leaves =>
    refine List.forall_mem_cons.2 ⟨?_, fun y hy => ?_⟩
    · rw [Function.update_self, Function.update_self, ← h.leaves]
      refine Forest.map_congr fun id hid => hF.kept id (h.new id hid).2 fun y _ _ => ?_
      exact FifoParts.not_accesses (Forest.mem_of_map_eq_leaves h.leaves hid)
    · rw [hupdateF y hy, hupdate y hy]
      exact hF.leaves y hy
  case reads =>
    refine List.forall_mem_cons.2 ⟨?_, fun y hy => ?_⟩
    · rw [turn_self, Function.update_self]
      exact ⟨h.reads, rfl⟩
    · rw [turn_cons (Ne.symm (hne y hy)) hx, hupdate y hy, ← hsame y hy]
      exact hF.reads y hy
  case lowered =>
    refine List.forall_mem_cons.2 ⟨fun id hid access side n haccess => ?_,
      fun y hy id hid access side n haccess => ?_⟩
    · rw [Function.update_self] at haccess ⊢
      exact h.lowered_first hp hF hid haccess
    · rw [hupdate y hy] at haccess ⊢
      exact h.lowered_later hp hregions hdevice hl hF hy (h.name_ne hF hl hsame hy) hid haccess
  case kept =>
    intro id hid hnot
    obtain ⟨hfirst, hnot⟩ := List.forall_mem_cons.1 hnot
    rw [Function.update_self] at hfirst
    have hop := h.op_eq hid hfirst
    rw [hF.kept id (Nat.lt_of_lt_of_le hid hev.size) fun y hy hin => ?_, hop]
    have hnoty := hnot y hy (hev.mem_walkIn hrwalk hin hid)
    rwa [hupdate y hy, ← hop] at hnoty

end Program.LowersFifo

/-- The FIFOs of a list are replaced one after the other. -/
theorem lowerObjectFifos_list {l : List OpId} (hp : p.Tree) (hregions : p.OwnsRegions)
    (hvalues : p.definedValues.Nodup) (hdevice : device ∈ p.devices)
    (hl : p.SeparateFifos device l) (h : runOn (l.forM (lowerObjectFifo device)) p = (.ok (), q)) :
    ∃ parts F, p.LowersFifos device l parts F q := by
  induction l generalizing p with
  | nil =>
      obtain rfl := forM_nil_ok.1 h
      exact ⟨fun _ => default, fun _ => .nil,
        (Forest.graft_eq_self fun _ _ => if_neg List.not_mem_nil).symm, Nat.le_refl _,
        fun _ hx => absurd hx List.not_mem_nil, fun _ hx => absurd hx List.not_mem_nil,
        fun _ hx => absurd hx List.not_mem_nil, fun _ hx => absurd hx List.not_mem_nil,
        fun _ _ _ => rfl⟩
  | cons x l ih =>
      obtain ⟨r, hx, hrest⟩ := forM_cons_ok.1 h
      obtain ⟨first, G, hr⟩ :=
        lowerObjectFifo_parts hp hregions hvalues hdevice (hl.found x List.mem_cons_self) hx
      obtain ⟨parts, F, hF⟩ := ih hr.tree hr.regions (hr.edits.nodup hp.sound hvalues)
        ((hr.edits.mem_devices EditRule.fifos_sparesDevices hp.sound).2 hdevice)
        (hr.separate hp hregions hdevice hl).1 hrest
      exact ⟨_, _, hr.cons hp hregions hdevice hl hx hF⟩

/-- The program at the turn of a FIFO of a device, when those before it have been replaced. -/
def Program.atFifo (p : Program) (device fifo : OpId) : Program :=
  p.turn (lowerObjectFifo device) (p.findIn device "aie.objectfifo") fifo

/-- **FIFOs in place.** When the FIFOs of a device are replaced, each of which has a name of its own
and no region, the tree of the program is the one of before with the buffers, the locks and the
stream of every FIFO in its place, each as it asks for and as the program at its turn tells. The
accesses of a FIFO are uses of its locks, and all other operations are as they were. -/
theorem lowerObjectFifos_contents (hp : p.Tree) (hregions : p.OwnsRegions)
    (hvalues : p.definedValues.Nodup) (hdevice : device ∈ p.devices)
    (hnames : ((p.findIn device "aie.objectfifo").map fun x => (p.op x).textAttr? "sym_name").Nodup)
    (hleaf : ∀ x ∈ p.findIn device "aie.objectfifo", (p.op x).hasRegion = false)
    (h : runOn (lowerObjectFifos device) p = (.ok (), q)) :
    q.definedValues.Nodup ∧ ∃ parts : OpId → FifoParts,
      q.contents = p.body.graft (p.expansion device "aie.objectfifo" fun _ x =>
        .leaves (parts x).operations .nil) q.op ∧
      (∀ x ∈ p.findIn device "aie.objectfifo",
        (parts x).ReadFrom (p.atFifo device x) device x ∧ (p.atFifo device x).op x = p.op x) ∧
      (∀ x ∈ p.findIn device "aie.objectfifo", ∀ id ∈ p.walkIn device, ∀ access side n,
        (p.op id).Accesses (parts x).shape.name access side n → q.op id = { p.op id with
          name := "aie.use_lock"
          operands := [.value (access.lowered (parts x).locks side).1,
            .ident (access.lowered (parts x).locks side).2, .int n] }) ∧
      ∀ id < p.slots.size, (∀ x ∈ p.findIn device "aie.objectfifo", id ∈ p.walkIn device →
        ∀ access side n, ¬(p.op id).Accesses (parts x).shape.name access side n) →
          q.op id = p.op id := by
  refine ⟨(lowerObjectFifos_device hp.sound hvalues hdevice h).nodup hp.sound hvalues, ?_⟩
  rw [lowerObjectFifos, get_bind_ok] at h
  have hnodup := hp.sound.nodup_findIn (Program.mem_walk_of_mem_devices hdevice) "aie.objectfifo"
  obtain ⟨parts, F, hF⟩ := lowerObjectFifos_list hp hregions hvalues hdevice
    ⟨hnodup, fun _ hx => hx, hleaf, hnames⟩ h
  refine ⟨parts, ?_, hF.reads, fun x hx id hid access side n haccess => ?_, hF.kept⟩
  · rw [Program.contents_of_graft hF.body]
    refine congrArg (fun g => Forest.graft g q.op p.body) (funext fun x => ?_)
    rw [Program.expansion]
    split
    · rename_i hx
      rw [hF.leaves x hx]
    · rfl
  · rw [hF.lowered x hx id hid access side n haccess, lowerAccess, haccess.access]
    dsimp only
    rw [if_pos haccess.fifo, haccess.side, haccess.count]

/-- A FIFO from a tile that faces the host, and one of its accesses in a core. -/
def fifoProgram : Program :=
  .ofForest .empty <| .single
    { name := "aie.device", operands := [.ident "ipu"], hasRegion := true }
    (.leaves [{ name := "aie.tile", result := some "a", operands := [.int 0, .int 0] },
        { name := "aie.tile", result := some "b", operands := [.int 0, .int 2] },
        { name := "aie.objectfifo", operands := [.value "a", .value "b"]
          attributes := .ofList [("depth", .int 1), ("size", .int 16), ("sym_name", .str "f")] }]
      (.cons { name := "aie.core", operands := [.value "b"], hasRegion := true }
        (.leaves [{ name := "aie.objectfifo.acquire"
                    operands := [.symbol "f", .ident "consume", .int 1] },
          { name := "aie.end" }] .nil) .nil))

/-- The buffer, the locks and the stream stand in the place of the FIFO, with a record of the
channel that faces the host, and the access waits on the lock that counts filled slots. -/
theorem lowerObjectFifos_contents_ofForest : ∃ q,
    runOn (lowerObjectFifos 0) fifoProgram = (.ok (), q) ∧
    (∃ parts : OpId → FifoParts, q.contents = fifoProgram.body.graft
        (fifoProgram.expansion 0 "aie.objectfifo" fun _ x =>
          .leaves (parts x).operations .nil) q.op ∧
      ∀ x ∈ fifoProgram.findIn 0 "aie.objectfifo", (parts x).ReadFrom
    (fifoProgram.atFifo 0 x) 0 x) ∧
    q.contents.preorder = [{ name := "aie.device", operands := [.ident "ipu"], hasRegion := true },
      { name := "aie.tile", result := some "a", operands := [.int 0, .int 0] },
      { name := "aie.tile", result := some "b", operands := [.int 0, .int 2] },
      { name := "aie.buffer", result := some "f_buff_0", operands := [.value "b"]
        attributes := .ofList [("size", .int 16), ("sym_name", .str "f_buff_0")] },
      { name := "aie.lock", result := some "f_prod_lock", operands := [.value "b", .int 0]
        attributes := .ofList [("init", .int 1), ("sym_name", .str "f_prod_lock")] },
      { name := "aie.lock", result := some "f_cons_lock", operands := [.value "b", .int 1]
        attributes := .ofList [("init", .int 0), ("sym_name", .str "f_cons_lock")] },
      streamPart "a" "b" 0 0, allocationPart "f" ⟨"MM2S", 0, 0⟩,
      { name := "aie.core", operands := [.value "b"], hasRegion := true },
      { name := "aie.use_lock"
        operands := [.value "f_cons_lock", .ident "acquire_ge", .int 1] },
      { name := "aie.end" }] := by
  have hok : (runOn (lowerObjectFifos 0) fifoProgram).1 = .ok () := by decide +kernel
  have hrun : runOn (lowerObjectFifos 0) fifoProgram =
      (.ok (), (runOn (lowerObjectFifos 0) fifoProgram).2) := Prod.ext hok rfl
  have hp : fifoProgram.Tree := (Program.wellFormed_ofForest _ _).tree rfl
  have hregions : fifoProgram.OwnsRegions := hp.ownsRegions (by decide +kernel)
  obtain ⟨-, parts, hcontents, hreads, -⟩ := lowerObjectFifos_contents hp hregions
    (by decide +kernel) (by decide +kernel) (by decide +kernel) (by decide +kernel) hrun
  exact ⟨_, hrun, ⟨parts, hcontents, fun x hx => (hreads x hx).1⟩, by decide +kernel⟩

/-- Two FIFOs. A lock names as its place the first one, whose value has the name that the producer
lock of the second one asks for. -/
def fifoValueSource : String :=
  "aie.device(ipu) \x7b %a = aie.tile(0, 2) %b = aie.tile(0, 3)\n" ++
  "%f2_prod_lock = aie.objectfifo(%a, %b) \x7bsize = 16, sym_name = \"f1\"\x7d\n" ++
  "%m = aie.lock(%f2_prod_lock, 3)\n" ++
  "aie.objectfifo(%a, %b) \x7bsize = 16, sym_name = \"f2\"\x7d \x7d"

/-- The second FIFO gets the identifiers 2 and 4, although 3 is free when its turn comes: the name
of the first FIFO is free then, and its producer lock gets it, so that the lock that named the first
FIFO is on the tile before the consumer lock asks. -/
theorem lowerObjectFifos_contents_captured :
    ∃ p q, Source.parse fifoValueSource = .ok p ∧ p.Tree ∧ p.OwnsRegions ∧
      p.definedValues.Nodup ∧ 0 ∈ p.devices ∧
      ((p.findIn 0 "aie.objectfifo").map fun x => (p.op x).textAttr? "sym_name").Nodup ∧
      (∀ x ∈ p.findIn 0 "aie.objectfifo", (p.op x).hasRegion = false) ∧
      runOn (lowerObjectFifos 0) p = (.ok (), q) ∧
      5 ∈ p.findIn 0 "aie.objectfifo" ∧ 3 ∈ (p.atFifo 0 5).freeLockIds 0 ⟨0, 3⟩ ∧
      (q.findIn 0 "aie.lock").map (fun lock =>
          ((q.op lock).textAttr? "sym_name", q.owningTile? lock, (q.op lock).lockId?)) =
        [(some "f1_prod_lock", some ⟨0, 3⟩, some 0), (some "f1_cons_lock", some ⟨0, 3⟩, some 1),
          (none, some ⟨0, 3⟩, some 3),
          (some "f2_prod_lock", some ⟨0, 3⟩, some 2),
    (some "f2_cons_lock", some ⟨0, 3⟩, some 4)] := by
  have hsource : ∃ p, Source.parse fifoValueSource = .ok p ∧
      let q := (runOn (lowerObjectFifos 0) p).2
      (runOn (lowerObjectFifos 0) p).1.toOption = some () ∧
      (∀ id < p.slots.size, p.children (some id) ≠ [] → (p.op id).hasRegion = true) ∧
      p.definedValues.Nodup ∧ 0 ∈ p.devices ∧
      ((p.findIn 0 "aie.objectfifo").map fun x => (p.op x).textAttr? "sym_name").Nodup ∧
      (∀ x ∈ p.findIn 0 "aie.objectfifo", (p.op x).hasRegion = false) ∧
      5 ∈ p.findIn 0 "aie.objectfifo" ∧ 3 ∉ (p.atFifo 0 5).lockIdsOn 0 ⟨0, 3⟩ ∧
      (q.findIn 0 "aie.lock").map (fun lock =>
          ((q.op lock).textAttr? "sym_name", q.owningTile? lock, (q.op lock).lockId?)) =
        [(some "f1_prod_lock", some ⟨0, 3⟩, some 0), (some "f1_cons_lock", some ⟨0, 3⟩, some 1),
          (none, some ⟨0, 3⟩, some 3),
          (some "f2_prod_lock", some ⟨0, 3⟩, some 2), (some "f2_cons_lock", some ⟨0, 3⟩, some 4)] :=
    exists_ok_of_any (by decide +kernel)
  obtain ⟨p, hparse, hok, hregions, hvalues, hdevice, hnames, hleaf, hfifo, hfree, hlocks⟩ :=
    hsource
  obtain ⟨hsound, -, haside⟩ := Source.parse_ok hparse
  have htree := hsound.toWellFormed.tree haside
  exact ⟨p, _, hparse, htree, htree.ownsRegions hregions, hvalues, hdevice, hnames, hleaf,
    eq_ok_of_toOption hok, hfifo, ⟨by decide, hfree⟩, hlocks⟩

end TileFlow
