import Mathlib.Data.List.Find
import TileFlow.Proofs.Fifo.Process
import TileFlow.Proofs.Fifo.Served
import TileFlow.Proofs.Program.Order

/-!
# Cores of registered processes

A registered process becomes a loop in the core of its tile. Its accesses are in that core, and in
those around it if cores are nested, so that all of them have to be near the FIFO. Cores that are
created are right in the device, with nothing around them, and are on the tile of their value.

## Main definitions

* `Program.Around`: the cores around an operation are on a tile.
* `Program.Home`: the cores of a value, and those around them, are on a tile.
* `Program.Ready`: the processes of a device have a home near their FIFOs.
* `Program.SameFifos`: the FIFOs of a device are those of before.
* `Program.ProcessesReady`: a device whose cores are served and whose processes are ready.

## Main results

* `registerProcess_served`, `registerProcesses_served`: one process, and all of them.
-/

namespace TileFlow

open TileFlow.Action

variable {rule : EditRule} {base m p q r s : Program} {device spot core id : OpId} {tile : Tile}
  {near : String → Tile → Prop} {op : Operation} {parent : Option OpId} {value name : String}

/-! ### Cores around an operation -/

/-- Whether the cores of a device that are an operation or above it sit on a tile. -/
def Program.Around (m : Program) (device spot : OpId) (tile : Tile) (p : Program) : Prop :=
  ∀ core ∈ p.findIn device "aie.core", core = spot ∨ spot ∈ p.walkIn core →
    m.seat? (p.op core) = some tile

/-- Whether the cores of a device that name a value, and the cores around these, sit on a tile. -/
def Program.Home (m : Program) (device : OpId) (value : String) (tile : Tile) (p : Program) :
    Prop :=
  ∀ core ∈ p.findIn device "aie.core", (p.op core).operandValue? 0 = some value →
    m.Around device core tile p

/-- Whether the cores of a device are ones of before, as they were. -/
structure Program.SameCores (p : Program) (device : OpId) (q : Program) : Prop where
  evolves : p.Evolves q
  mem : device ∈ q.walk
  core : ∀ core ∈ q.findIn device "aie.core", core ∈ p.findIn device "aie.core" ∧
    (p.op core).SameHeader (q.op core)

namespace Program

/-- Leaving the cores means having the same ones. -/
theorem LeavesCores.sameCores (h : p.LeavesCores device q) : p.SameCores device q :=
  ⟨h.evolves, h.mem, fun _ => h.found (by decide)⟩

/-- What stands around a place depends on the cores of the device. -/
theorem Around.same (h : m.Around device spot tile p) (hs : p.SameCores device q)
    (hspot : spot < p.slots.size) : m.Around device spot tile q := fun core hcore hbelow => by
  obtain ⟨hcorep, hheader⟩ := hs.core core hcore
  rw [seat?, hheader.operandValue?]
  refine h core hcorep (hbelow.imp_right fun hin => hs.evolves.mem_walkIn ?_ hin hspot)
  exact hs.evolves.sound.mem_walk_of_walkIn hs.mem (List.mem_filter.1 hcore).1

/-- The home of a value depends on the cores of the device. -/
theorem Home.same (h : m.Home device value tile p) (hp : p.Sound) (hs : p.SameCores device q) :
    m.Home device value tile q := fun core hcore hvalue => by
  obtain ⟨hcorep, hheader⟩ := hs.core core hcore
  exact (h core hcorep ((hheader.operandValue? 0).symm.trans hvalue)).same hs
    (hp.lt_size_of_walkIn (List.mem_filter.1 hcorep).1)

/-! ### New operations -/

/-- What is below a core after a creation was there before, or is new and in the core. -/
theorem Created.core_cases (h : p.Created parent op q) (hp : p.Sound) (hdevice : device ∈ p.walk)
    (hcore : core ∈ q.findIn device "aie.core") :
    (core ∈ p.findIn device "aie.core" ∧ (p.op core).SameHeader (q.op core)) ∨
      (core = p.slots.size ∧ op.is "aie.core" = true) := by
  obtain ⟨hin, his⟩ := List.mem_filter.1 hcore
  rcases (h.walkIn device hdevice core).1 hin with hin | ⟨rfl, -⟩
  · have hheader := h.old core (hp.lt_size_of_walkIn hin)
    exact .inl ⟨List.mem_filter.2 ⟨hin, (hheader.is _).symm.trans his⟩, hheader⟩
  · exact .inr ⟨rfl, (h.header.is _).symm.trans his⟩

/-- Creating anything but a core leaves the cores. -/
theorem Created.sameCores (h : p.Created parent op q) (hp : p.Sound) (hdevice : device ∈ p.walk)
    (hop : op.is "aie.core" = false) : p.SameCores device q where
  evolves := h.evolves hp
  mem := (h.walk device).2 (.inl hdevice)
  core _ hcore := (h.core_cases hp hdevice hcore).resolve_right fun hnew => by
    rw [hop] at hnew
    exact Bool.false_ne_true hnew.2

/-- The cores around a new operation are those of the place where it is put. -/
theorem Around.created {b : OpId} (h : m.Around device b tile p)
    (hq : p.Created (some b) op q) (hp : p.Sound) (hdevice : device ∈ p.walk)
    (hop : op.is "aie.core" = false) : m.Around device p.slots.size tile q :=
  fun core hcore hbelow => by
    obtain ⟨hcorep, hheader⟩ := (hq.sameCores hp hdevice hop).core core hcore
    have hin := (List.mem_filter.1 hcorep).1
    rw [seat?, hheader.operandValue?]
    refine h core hcorep ?_
    rcases hbelow with rfl | hbelow
    · exact absurd (hp.lt_size_of_walkIn hin) (Nat.lt_irrefl _)
    · rcases (hq.walkIn core (hp.mem_walk_of_walkIn hdevice hin) _).1 hbelow with
        hbelow | ⟨-, c, hc, hcb⟩
      · exact absurd (hp.lt_size_of_walkIn hbelow) (Nat.lt_irrefl _)
      · cases hc
        exact hcb.imp_left Eq.symm

/-- A new operation that is no core fits in the cores around its place, or needs nothing. -/
theorem CoresServed.created (h : m.CoresServed near device p) (hq : p.Created parent op q)
    (hp : p.Sound) (hdevice : device ∈ p.walk) (hop : op.is "aie.core" = false)
    (hfits : op.name ∉ servedNames ∨
      ∃ b tile, parent = some b ∧ m.Around device b tile p ∧ op.Fits m near tile) :
    m.CoresServed near device q := fun core hcore => by
  obtain ⟨hcorep, hheader⟩ := (hq.sameCores hp hdevice hop).core core hcore
  have hwalk := hp.mem_walk_of_walkIn hdevice (List.mem_filter.1 hcorep).1
  obtain ⟨tile, hseat, hall⟩ := h core hcorep
  refine ⟨tile, by rwa [seat?, hheader.operandValue?], fun id hid => ?_⟩
  rcases (hq.walkIn core hwalk id).1 hid with hid | ⟨rfl, c, hc, hcb⟩
  · exact (hall id hid).congr (hq.old id (hp.lt_size_of_walkIn hid))
  · refine Operation.Fits.congr ?_ hq.header
    rcases hfits with hname | ⟨b, tile', hb, haround, hfits⟩
    · exact .of_notMem hname
    · obtain rfl := Option.some.inj (hc.symm.trans hb)
      have hseat' := haround core hcorep (hcb.imp_left Eq.symm)
      rw [hseat, Option.some.injEq] at hseat'
      exact hseat' ▸ hfits

/-- What is put right in a device is in no core. -/
theorem Created.mem_core (hq : p.Created (some device) op q) (hp : p.Sound)
    (hdevice : device ∈ p.devices) (hcore : core ∈ p.findIn device "aie.core")
    (hid : id ∈ q.walkIn core) : id ∈ p.walkIn core := by
  obtain ⟨hin, his⟩ := List.mem_filter.1 hcore
  obtain ⟨hroot, hisDevice⟩ := mem_devices.1 hdevice
  have hwalk := hp.mem_walk_of_walkIn (mem_walk_of_mem_devices hdevice) hin
  refine ((hq.walkIn core hwalk id).1 hid).resolve_right ?_
  rintro ⟨-, b, hb, habove⟩
  obtain rfl := Option.some.inj hb
  rcases habove with rfl | habove
  · rw [Operation.not_is_of_is his (by decide)] at hisDevice
    cases hisDevice
  · exact notMem_walkIn_of_root hp.toWellFormed hroot hwalk habove

/-- A new core right in the device has nothing in it, and is in no other core. -/
theorem CoresServed.createdCore (h : m.CoresServed near device p)
    (hq : p.Created (some device) op q) (hp : p.Sound) (hdevice : device ∈ p.devices)
    (hvalue : op.operandValue? 0 = some value) (hplace : m.placeOf? value = some tile) :
    m.CoresServed near device q := fun core hcore => by
  have hwalk := mem_walk_of_mem_devices hdevice
  rcases hq.core_cases hp hwalk hcore with ⟨hcorep, hheader⟩ | ⟨rfl, -⟩
  · obtain ⟨tile, hseat, hall⟩ := h core hcorep
    refine ⟨tile, by rwa [seat?, hheader.operandValue?], fun id hid => ?_⟩
    have hidp := hq.mem_core hp hdevice hcorep hid
    exact (hall id hidp).congr (hq.old id (hp.lt_size_of_walkIn hidp))
  · refine ⟨tile, ?_, fun id hid => ?_⟩
    · rw [seat?, hq.header.operandValue?, hvalue]
      exact hplace
    · rw [hq.leaf fun b hb => Option.some.inj hb ▸ hwalk] at hid
      cases hid

/-- A new core on the tile of a value is the home of its accesses. -/
theorem Home.createdCore (h : m.Home device value tile p) (hq : p.Created (some device) op q)
    (hp : p.Sound) (hdevice : device ∈ p.devices) (hplace : m.placeOf? value = some tile) :
    m.Home device value tile q := fun inner hinner hvalue core hcore hbelow => by
  have hwalk := mem_walk_of_mem_devices hdevice
  rcases hq.core_cases hp hwalk hcore with ⟨hcorep, hheader⟩ | ⟨rfl, -⟩
  · have hbelowp : core = inner ∨ inner ∈ p.walkIn core :=
      hbelow.imp_right (hq.mem_core hp hdevice hcorep)
    have hlt : inner < p.slots.size := hbelowp.elim
      (fun heq => heq ▸ hp.lt_size_of_walkIn (List.mem_filter.1 hcorep).1) hp.lt_size_of_walkIn
    obtain ⟨hinnerp, hinnerHeader⟩ := (hq.core_cases hp hwalk hinner).resolve_right
      fun hnew => Nat.lt_irrefl _ (hnew.1 ▸ hlt)
    rw [seat?, hheader.operandValue?]
    exact h inner hinnerp ((hinnerHeader.operandValue? 0).symm.trans hvalue) core hcorep hbelowp
  · rw [hq.leaf fun b hb => Option.some.inj hb ▸ hwalk] at hbelow
    obtain rfl := hbelow.resolve_right List.not_mem_nil
    rw [seat?, hvalue]
    exact hplace

/-- A program on the way of another one, in which an operation has cores on a tile around it. -/
structure Staffed (m : Program) (near : String → Tile → Prop) (device : OpId) (p : Program)
    (spot : OpId) (tile : Tile) (r : Program) : Prop where
  sound : r.Sound
  size : p.slots.size ≤ r.slots.size
  inDevice : device ∈ r.walk
  created : spot < r.slots.size
  served : m.CoresServed near device r
  around : m.Around device spot tile r
  homes : ∀ value tile, m.placeOf? value = some tile → m.Home device value tile p →
    m.Home device value tile r

/-- What is put below the operation has the same cores around it. -/
theorem Staffed.create (h : m.Staffed near device p spot tile r)
    (hs : r.Created (some spot) op s) (hop : op.is "aie.core" = false)
    (hfits : op.name ∉ servedNames ∨ op.Fits m near tile) :
    m.Staffed near device p spot tile s ∧ m.Staffed near device p r.slots.size tile s := by
  have hsame := hs.sameCores h.sound h.inDevice hop
  have hserved := h.served.created hs h.sound h.inDevice hop
    (hfits.imp_right fun hfits => ⟨spot, tile, rfl, h.around, hfits⟩)
  have hhomes : ∀ value tile, m.placeOf? value = some tile → m.Home device value tile p →
      m.Home device value tile s := fun v t hv hhome => (h.homes v t hv hhome).same h.sound hsame
  have hsize := Nat.le_trans h.size hsame.evolves.size
  exact ⟨⟨hs.sound, hsize, hsame.mem, Nat.lt_of_lt_of_le h.created hsame.evolves.size, hserved,
    h.around.same hsame h.created, hhomes⟩,
    ⟨hs.sound, hsize, hsame.mem, hs.size ▸ Nat.lt_succ_self _, hserved,
      h.around.created hs h.sound h.inDevice hop, hhomes⟩⟩

end Program

/-! ### Processes -/

/-- The core on the tile of a value is served as soon as it is there. -/
theorem coreFor_served (hp : p.Sound) (hdevice : device ∈ p.devices)
    (hserved : m.CoresServed near device p) (hplace : m.placeOf? value = some tile)
    (hhome : m.Home device value tile p)
    (hrun : runOn (coreFor device value) p = (.ok core, q)) :
    m.Staffed near device p core tile q := by
  have hwalk := Program.mem_walk_of_mem_devices hdevice
  rw [coreFor, get_bind_ok] at hrun
  split at hrun
  · rename_i found hfound
    obtain ⟨rfl, rfl⟩ := pure_ok.1 hrun
    have hcore := List.mem_of_find?_eq_some hfound
    have hvalue : ((p.op found).operandValue? 0 == some value) = true :=
      List.find?_some (p := fun id => (p.op id).operandValue? 0 == some value) hfound
    exact ⟨hp, Nat.le_refl _, hwalk, hp.lt_size_of_walkIn (List.mem_filter.1 hcore).1, hserved,
      hhome found hcore (beq_iff_eq.1 hvalue), fun _ _ _ h => h⟩
  · obtain ⟨new, r, hnew, hrun⟩ := bind_ok.1 hrun
    obtain ⟨_, s, hend, hrun⟩ := bind_ok.1 hrun
    obtain ⟨rfl, rfl⟩ := pure_ok.1 hrun
    obtain ⟨rfl, hcreated⟩ := append_created hp hnew
    obtain ⟨-, hcreatedEnd⟩ := append_created hcreated.sound hend
    have hstaffed : m.Staffed near device p p.slots.size tile r :=
      { sound := hcreated.sound
        size := hcreated.size ▸ Nat.le_succ _
        inDevice := (hcreated.walk device).2 (.inl hwalk)
        created := hcreated.size ▸ Nat.lt_succ_self _
        served := hserved.createdCore hcreated hp hdevice rfl hplace
        around := hhome.createdCore hcreated hp hdevice hplace _
          (List.mem_filter.2
            ⟨(hcreated.walkIn device hwalk _).2 (.inr ⟨rfl, device, rfl, .inl rfl⟩),
            hcreated.header.is _⟩) (hcreated.header.operandValue? 0)
        homes := fun v t hv h => h.createdCore hcreated hp hdevice hv }
    exact (hstaffed.create hcreatedEnd rfl (.inl (by decide))).1

/-- What is put last in a core, but before its terminator, is right in the core. -/
theorem appendToCore_created (hp : p.Tree) (hrun : runOn (appendToCore core op) p = (.ok id, q)) :
    id = p.slots.size ∧ p.Created (some core) op q := by
  rw [appendToCore, get_bind_ok] at hrun
  split at hrun
  · rename_i last hlast
    split at hrun
    · obtain ⟨i, hi⟩ := List.getElem?_of_mem (List.mem_of_getLast? hlast)
      have hinto : p.insertBefore last op = p.insertAt (some core) i op := by
        rw [Program.insertBefore, hp.locate?_eq_some_iff.2 hi]
      rw [runOn_insertBefore, hinto, Prod.mk.injEq, Except.ok.injEq] at hrun
      obtain ⟨rfl, rfl⟩ := hrun
      exact ⟨Program.fst_insertAt p _ _ op, Program.created_insertAt hp.sound _ _ op⟩
    · exact append_created hp.sound hrun
  · exact append_created hp.sound hrun

/-- The access a process makes fits the tile its FIFO is near to. -/
theorem accessOf_fits {side : Side} (hname : name ≠ "aie.use_lock") {fifo : String}
    (h : near fifo tile) : (accessOf name fifo side).Fits m near tile where
  use his := absurd (beq_iff_eq.1 his) hname
  access _ _ hfifo := by
    cases hfifo
    exact h

/-- Whether the tile of a registered process has its FIFO near, and so have the cores around the one
that the process gets. -/
def Program.Ready (m : Program) (near : String → Tile → Prop) (device : OpId) (p : Program)
    (registration : OpId) : Prop :=
  ∀ name side fifo value, (p.op registration).operandSymbol? 0 = some name →
    Side.ofName? (((p.op registration).operandText? 1).getD "consume") = some side →
    p.fifo? device name = some fifo → (p.op fifo).operandValue? side.tileIndex = some value →
    ∃ tile, m.placeOf? value = some tile ∧ near name tile ∧ m.Home device value tile p

/-- A registered process becomes a loop in a core near its FIFO. -/
theorem registerProcess_served {registration : OpId} (hp : p.Tree) (hdevice : device ∈ p.devices)
    (hlt : registration < p.slots.size) (hserved : m.CoresServed near device p)
    (hready : m.Ready near device p registration)
    (hrun : runOn (registerProcess device registration) p = (.ok (), q)) (hmem : device ∈ q.walk) :
    m.CoresServed near device q ∧ ∀ value tile, m.placeOf? value = some tile →
      m.Home device value tile p → m.Home device value tile q := by
  obtain ⟨run, rfl⟩ := registerProcess_run hrun
  obtain ⟨tile, hplace, hnear, hhome⟩ :=
    hready run.name run.side run.fifo run.value run.name_eq run.side_eq run.fifo_eq run.value_eq
  have h₁ := coreFor_served hp.sound hdevice hserved hplace hhome run.core_run
  obtain ⟨hloop, hnewLoop⟩ := appendToCore_created
    ((coreFor_edits (run.fifoUses hp.sound) run.core_run).tree hp) run.loop_run
  have h₂ := (h₁.create hnewLoop rfl (.inl (by simp [loopOf, servedNames]))).2
  rw [← hloop] at h₂
  obtain ⟨-, hnewAcquire⟩ := append_created h₂.sound run.acquire_run
  have h₃ := (h₂.create hnewAcquire rfl (.inr (accessOf_fits (by decide) hnear))).1
  obtain ⟨-, hnewCall⟩ := append_created h₃.sound run.call_run
  have h₄ := (h₃.create hnewCall rfl (.inl (by simp [servedNames]))).1
  obtain ⟨-, hnewRelease⟩ := append_created h₄.sound run.release_run
  have h₅ := (h₄.create hnewRelease rfl (.inr (accessOf_fits (by decide) hnear))).1
  have hcut := (Program.cut_erase h₅.sound (Nat.lt_of_lt_of_le hlt h₅.size)).leavesCores h₅.sound
    hmem
  exact ⟨h₅.served.leaves hcut, fun v t hv h => (h₅.homes v t hv h).same h₅.sound hcut.sameCores⟩

/-! ### FIFOs of before -/

/-- Whether the FIFOs of a device are those of before, in the same order and as they were. -/
structure Program.SameFifos (p : Program) (device : OpId) (q : Program) : Prop where
  list : q.findIn device "aie.objectfifo" = p.findIn device "aie.objectfifo"
  header : ∀ fifo ∈ p.findIn device "aie.objectfifo", (p.op fifo).SameHeader (q.op fifo)

namespace Program

/-- A program has its own FIFOs. -/
theorem SameFifos.refl (p : Program) (device : OpId) : p.SameFifos device p :=
  ⟨rfl, fun _ _ => .refl _⟩

/-- Having the same FIFOs is transitive. -/
theorem SameFifos.trans (h : p.SameFifos device q) (h' : q.SameFifos device r) :
    p.SameFifos device r where
  list := h'.list.trans h.list
  header fifo hfifo := (h.header fifo hfifo).trans (h'.header fifo (h.list ▸ hfifo))

/-- A name means the FIFO that it meant. -/
theorem SameFifos.fifo? (h : p.SameFifos device q) (name : String) :
    q.fifo? device name = p.fifo? device name := by
  rw [Program.fifo?, Program.fifo?, h.list]
  exact List.find?_congr fun fifo hfifo => by rw [(h.header fifo hfifo).textAttr?]

/-- With nothing changed below the device, the FIFOs are the same. -/
theorem SameBelow.sameFifos (h : p.SameBelow device q) (hp : p.Sound) (hedits : p.Edits rule q)
    (hdevice : device ∈ p.walk) (hmem : device ∈ q.walk) : p.SameFifos device q where
  list := hedits.findIn_eq hp hdevice hmem fun id => by
    rw [findIn, List.mem_filter, h.walkIn, findIn, List.mem_filter]
    exact and_congr_right fun hid => by rw [h.op id hid]
  header fifo hfifo := h.op fifo (List.mem_filter.1 hfifo).1 ▸ .refl _

/-- Edits that have nothing to do with FIFOs leave those that are not below what they erase. -/
theorem Edits.sameFifos {names : List String} (hrule : rule.KeepsValues names)
    (hnames : "aie.objectfifo" ∉ names) (hspares : rule.Spares "aie.objectfifo")
    (hgives : rule.Keeps fun op => op.name ≠ "aie.objectfifo") (hp : p.Sound)
    (hhidden : p.HidesNone names ["aie.objectfifo"]) (hdevice : device ∈ p.walk)
    (hmem : device ∈ q.walk) (h : p.Edits rule q) : p.SameFifos device q := by
  have hheader : ∀ fifo ∈ p.findIn device "aie.objectfifo", (p.op fifo).SameHeader (q.op fifo) :=
    fun fifo hfifo => by
      obtain ⟨hin, his⟩ := List.mem_filter.1 hfifo
      exact h.spared hspares hp (hp.lt_size_of_walkIn hin) his
  refine ⟨h.findIn_eq hp hdevice hmem fun id =>
    ⟨h.findIn_of_old hgives hp hmem, fun hid => ?_⟩, hheader⟩
  obtain ⟨hin, his⟩ := List.mem_filter.1 hid
  have hname : (p.op id).name = "aie.objectfifo" := beq_iff_eq.1 his
  have hopen : p.Unhidden names id :=
    ⟨hp.mem_walk_of_walkIn hdevice hin, hname ▸ hnames, fun x hx hxname hbelow =>
      hhidden x hx hxname id hbelow (List.mem_singleton.2 hname)⟩
  refine List.mem_filter.2 ⟨?_, ((hheader id hid).is _).trans his⟩
  exact ((h.evolves hp).walkIn device hmem id (hopen.edits hrule hp h).mem
    (hp.lt_size_of_walkIn hin)).2 ⟨hp.created device hdevice, hin⟩

/-- A registration stays ready while FIFOs and homes last. -/
theorem Ready.same {registration : OpId} (h : m.Ready near device p registration)
    (hheader : (p.op registration).SameHeader (q.op registration)) (hfifos : p.SameFifos device q)
    (hhomes : ∀ value tile, m.placeOf? value = some tile → m.Home device value tile p →
      m.Home device value tile q) : m.Ready near device q registration := by
  intro name side fifo value hname hside hfifo hvalue
  rw [hheader.operandSymbol?] at hname
  rw [Operation.operandText?, hheader.operands] at hside
  rw [hfifos.fifo?] at hfifo
  rw [(hfifos.header fifo (List.mem_of_find?_eq_some hfifo)).operandValue?] at hvalue
  obtain ⟨tile, hplace, hnear, hhome⟩ := h name side fifo value hname hside hfifo hvalue
  exact ⟨tile, hplace, hnear, hhomes value tile hplace hhome⟩

end Program

/-- The turns of other devices before it leave the FIFOs of a device. -/
theorem Stage.Turn.sameFifos_before {f : OpId → Action Unit} (t : Turn rule f device p q)
    (hp : p.Sound) (hdevice : device ∈ p.walk) : p.SameFifos device t.before :=
  t.waits.sameFifos hp t.edits hdevice (Program.mem_walk_of_mem_devices t.mem_before)

/-- The turns of other devices after it leave the FIFOs of a device. -/
theorem Stage.Turn.sameFifos_after {f : OpId → Action Unit} (t : Turn rule f device p q) :
    t.after.SameFifos device q :=
  t.stays.sameFifos t.after_sound t.rest (Program.mem_walk_of_mem_devices t.mem_after)
    (Program.mem_walk_of_mem_devices t.mem_end)

/-- Giving locks identifiers leaves the FIFOs. -/
theorem Program.Edits.lockIds_sameFifos (hp : p.Sound) (hdevice : device ∈ p.walk)
    (hmem : device ∈ q.walk) (h : p.Edits .lockIds q) : p.SameFifos device q :=
  have hrule : EditRule.lockIds.KeepsValues [] :=
    ⟨EditRule.lockIds_keepsValues.place, fun _ _ _ _ hname => absurd hname List.not_mem_nil,
      fun _ _ hop => hop.elim⟩
  h.sameFifos hrule List.not_mem_nil (EditRule.lockIds_spares (by decide))
    (EditRule.lockIds_names.keeps_ne List.not_mem_nil) hp
    (fun _ _ hname => absurd hname List.not_mem_nil) hdevice hmem

/-- Registering processes leaves the FIFOs. -/
theorem Program.Edits.processes_sameFifos (hp : p.Sound)
    (hhidden : p.HidesNone ["aie.objectfifo.register_process"] ["aie.objectfifo"])
    (hdevice : device ∈ p.walk) (hmem : device ∈ q.walk) (h : p.Edits .processes q) :
    p.SameFifos device q :=
  have hrule : EditRule.processes.KeepsValues ["aie.objectfifo.register_process"] :=
    EditRule.keepsValues_of_unchanged _ List.mem_cons_self (fun _ _ _ hop => hop) fun _ _ hop => hop
  h.sameFifos hrule (by decide)
    (EditRule.spares_of_unchanged (by decide) (fun _ _ _ hop => hop) fun _ _ hop => hop)
    (EditRule.processes_names.keeps_ne (by decide)) hp hhidden hdevice hmem

/-- A device with the FIFOs of the base, whose cores are served and whose processes are ready to be
put in them. -/
structure Program.ProcessesReady (m : Program) (near : String → Tile → Prop) (device : OpId)
    (base p : Program) : Prop where
  fifos : base.SameFifos device p
  served : m.CoresServed near device p
  ready : ∀ registration ∈ p.findIn device "aie.objectfifo.register_process",
    m.Ready near device p registration

/-- Registrations stay ready while cores and FIFOs are left. -/
theorem Program.ProcessesReady.leaves (h : m.ProcessesReady near device base p) (hp : p.Sound)
    (hl : p.LeavesCores device q) (hfifos : p.SameFifos device q) :
    m.ProcessesReady near device base q where
  fifos := h.fifos.trans hfifos
  served := h.served.leaves hl
  ready registration hfound := by
    obtain ⟨hfoundp, hheader⟩ := hl.found (by decide) hfound
    exact (h.ready registration hfoundp).same hheader hfifos
      fun _ _ _ hhome => hhome.same hp hl.sameCores

/-- All registered processes of a device become loops in cores near their FIFOs. -/
theorem registerProcesses_served (hp : p.Tree) (hdevice : device ∈ p.devices)
    (hhidden : p.HidesNone ["aie.objectfifo.register_process"] ["aie.objectfifo"])
    (hready : m.ProcessesReady near device base p)
    (hrun : runOn (registerProcesses device) p = (.ok (), q)) : m.CoresServed near device q := by
  rw [registerProcesses, get_bind_ok] at hrun
  have hspares := EditRule.processes_sparesDevices
  have hwalk := Program.mem_walk_of_mem_devices hdevice
  refine (forM_induction (I := fun r => p.Edits .processes r ∧ m.CoresServed near device r ∧
    ∀ value tile, m.placeOf? value = some tile → m.Home device value tile p →
      m.Home device value tile r) hrun ⟨.refl, hready.served, fun _ _ _ h => h⟩ ?_).2.1
  rintro registration hfound r s ⟨hr, hservedr, hhomes⟩ hstep
  obtain ⟨hin, his⟩ := List.mem_filter.1 hfound
  have htree := hr.tree hp
  have hlt := hp.sound.lt_size_of_walkIn hin
  have hheader := hr.sameHeader hp.sound (fun _ _ _ hop => hop) hlt
  have hdevicer := (hr.mem_devices hspares hp.sound).2 hdevice
  have hfifos := hr.processes_sameFifos hp.sound hhidden hwalk
    (Program.mem_walk_of_mem_devices hdevicer)
  obtain ⟨t, ht, rfl⟩ := registerProcess_ok htree.sound hstep
  have hltr := Nat.lt_of_lt_of_le hlt (hr.size_le hp.sound)
  have hheader' := hheader.trans (ht.sameHeader htree.sound (fun _ _ _ hop => hop) hltr)
  have hedits : p.Edits .processes (t.erase registration) := (hr.trans ht).trans (.single
    (.erase registration (Nat.lt_of_lt_of_le hlt ((hr.trans ht).size_le hp.sound))
      ((hheader'.is _).trans his)))
  obtain ⟨hserveds, hhomess⟩ := registerProcess_served htree hdevicer hltr hservedr
    ((hready.ready registration hfound).same hheader hfifos hhomes) hstep
    (Program.mem_walk_of_mem_devices ((hedits.mem_devices hspares hp.sound).2 hdevice))
  exact ⟨hedits, hserveds, fun v u hv h => hhomess v u hv (hhomes v u hv h)⟩

end TileFlow
