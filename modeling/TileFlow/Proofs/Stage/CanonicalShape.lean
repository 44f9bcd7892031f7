import TileFlow.Proofs.Stage.Edits

/-!
# Structural stages

The first two stages rename affine operations and wrap a program without a device, and the last one
drops terminators and renames structured control flow.

## Main definitions

* `EditRule.affine`, `EditRule.structured`: the edits of the stages that rename.
* `Program.Wraps`: a program that may have been wrapped in a device.

## Main results

* `lowerAffine_edits`: no affine operation is left.
* `wrapInDevice_wraps`: there is a device.
* `lowerStructured_edits`: no structured control flow is left.
-/

namespace TileFlow

open TileFlow.Action

variable {p q r : Program} {id : OpId}

/-! ### Affine operations -/

/-- Affine operations are renamed. -/
def EditRule.affine : EditRule where
  creates _ _ _ := False
  changes p id op := op = (p.op id).renamed affineNames
  erases _ _ := False

/-- An operation is renamed when its name is an affine one, and is otherwise left alone. -/
theorem Operation.renamed_affine (op : Operation) :
    op.renamed affineNames = op ∨ ∃ old new, (old, new) ∈ affineNames ∧ op.name = old ∧
      op.renamed affineNames = { op with name := new } := by
  rw [renamed]
  split
  · rename_i old new hfind
    have hname := List.find?_some hfind
    exact .inr ⟨old, new, List.mem_of_find?_eq_some hfind, (beq_iff_eq.1 hname).symm, rfl⟩
  · exact .inl rfl

/-- Renaming affine operations makes the names of their counterparts only. -/
theorem EditRule.affine_names : EditRule.affine.Names (affineNames.map (·.2)) where
  creates _ _ _ hop := hop.elim
  changes p id op hop := by
    subst hop
    rcases (p.op id).renamed_affine with h | ⟨old, new, hmem, -, h⟩
    · exact .inl (by rw [h])
    · exact .inr (h ▸ List.mem_map_of_mem (f := (·.2)) hmem)

/-- Renaming affine operations does not touch other names. -/
theorem EditRule.affine_is {op : Operation} (h : EditRule.affine.changes p id op) {name : String}
    (hname : ∀ pair ∈ affineNames, pair.1 ≠ name ∧ pair.2 ≠ name) :
    op.is name = (p.op id).is name := by
  subst h
  rcases (p.op id).renamed_affine with h | ⟨old, new, hmem, hold, h⟩
  · rw [h]
  · obtain ⟨hne, hne'⟩ := hname (old, new) hmem
    rw [h, Operation.not_is_of_is (beq_iff_eq.2 hold) hne]
    exact beq_eq_false_iff_ne.2 hne'

/-- Changes in place, one operation after the other, keep the body. -/
theorem Program.foldl_modify {rule : EditRule} {f : Operation → Operation} {l : List OpId}
    (changes : ∀ r id, rule.changes r id (f (r.op id))) (result : ∀ op, (f op).result = op.result)
    (hl : ∀ id ∈ l, id < p.slots.size) :
    p.Edits rule (l.foldl (fun q id => q.modify id f) p) ∧
      (l.foldl (fun q id => q.modify id f) p).walk = p.walk ∧
      (l.foldl (fun q id => q.modify id f) p).detached = p.detached := by
  induction l generalizing p with
  | nil => exact ⟨.refl, rfl, rfl⟩
  | cons a l ih =>
      obtain ⟨hedits, hwalk, hdetached⟩ := ih fun id hid => by
        rw [size_modify]
        exact hl id (List.mem_cons_of_mem _ hid)
      exact ⟨.head (.change a f (hl a List.mem_cons_self) (changes p a) (result _)) hedits, hwalk,
        hdetached⟩

/-- Affine operations are renamed, and none is left. -/
theorem lowerAffine_edits (hp : p.Sound) (h : runOn lowerAffine p = (.ok (), q)) :
    p.Edits .affine q ∧ q.detached = p.detached ∧
      ∀ id ∈ q.walk, (q.op id).dialect ≠ "affine" := by
  rw [lowerAffine] at h
  obtain ⟨_, r, hmodify, h⟩ := bind_ok.1 h
  rw [runOn_modify, Prod.mk.injEq] at hmodify
  obtain ⟨-, rfl⟩ := hmodify
  rw [get_bind_ok] at h
  have hresult (op : Operation) : (op.renamed affineNames).result = op.result := by
    rcases op.renamed_affine with h | ⟨_, _, -, -, h⟩ <;> rw [h]
  have hrename (s : Program) (id : OpId) :
      EditRule.affine.changes s id ((s.op id).renamed affineNames) := rfl
  obtain ⟨hedits, -, hdetached⟩ := Program.foldl_modify hrename hresult hp.created
  split at h
  · cases h
  · rename_i hnone
    obtain ⟨-, rfl⟩ := pure_ok.1 h
    exact ⟨hedits, hdetached, fun id hid => by simpa using List.find?_eq_none.1 hnone id hid⟩

/-! ### The device around a program -/

/-- A program with at least one device, in which the operations of another one are the same, with
the same operations below them. -/
structure Program.Wraps (p q : Program) : Prop where
  sound : q.Sound
  size : p.slots.size ≤ q.slots.size
  op : ∀ id < p.slots.size, q.op id = p.op id
  new : ∀ id < q.slots.size, p.slots.size ≤ id → q.op id = defaultDevice
  kept : ∀ id ∈ p.walk, id ∈ q.walk
  walk : ∀ id ∈ q.walk, id ∈ p.walk ∨ q.op id = defaultDevice
  walkIn : ∀ a ∈ p.walk, q.walkIn a = p.walkIn a
  devices : q.devices ≠ []

/-- The trees at the top are moved into a device, one after the other. -/
theorem moveAll_ok {device : OpId} {moved rest : Forest OpId}
    (hbody : p.body = .cons device moved rest)
    (hdistinct : p.body.Distinct) (hdetached : p.detached = []) (hdevice : device < p.slots.size)
    (hregion : (p.op device).hasRegion = true)
    (h : runOn (rest.roots.forM fun id => Action.moveTo id device) p = (.ok (), q)) :
    q.body = .single device (moved ++ rest) ∧ q.detached = [] ∧ q.slots.size = p.slots.size ∧
      ∀ id, q.op id = p.op id := by
  induction rest generalizing p moved with
  | nil =>
      obtain rfl := forM_nil_ok.1 h
      exact ⟨by rw [hbody, Forest.append_nil]; rfl, hdetached, rfl, fun _ => rfl⟩
  | cons c below rest _ ih =>
      obtain ⟨r, hmove, h⟩ := forM_cons_ok.1 h
      rw [runOn_moveTo, Prod.mk.injEq] at hmove
      obtain ⟨-, rfl⟩ := hmove
      rw [hbody] at hdistinct
      obtain ⟨-, hdr, -, -, hdisj⟩ := Forest.distinct_cons.1 hdistinct
      have hcd : device ≠ c := by
        rintro rfl
        exact hdr (by simp)
      have hcm : c ∉ moved.preorder := fun hmem => hdisj c hmem (by simp)
      have hbelow : p.below c = below := Program.below_of_below? (by
        rw [hbody, Forest.below?, if_neg hcd, Forest.below?_eq_none_iff.2 hcm, Option.none_or,
          Forest.below?, if_pos rfl])
      have hnew :
          (p.moveTo c (some device)).body = .cons device (moved ++ .single c below) rest := by
        rw [Program.body_moveTo, hbelow, hbody, Forest.remove, if_neg hcd,
          Forest.remove_eq_self hcm, Forest.remove, if_pos rfl, Forest.update, if_pos rfl]
      have hop : ∀ id, (p.moveTo c (some device)).op id = p.op id := fun id => by
        by_cases hid : id = device
        · subst hid
          rw [Program.op_moveTo_parent hdevice, ← hregion]
        · exact Program.op_congr (Program.slot_moveTo_of_ne hid)
      obtain ⟨hqbody, hqdet, hqsize, hqop⟩ := ih hnew (by
          rw [Forest.Distinct] at hdistinct
          rw [hnew, Forest.Distinct]
          simpa [Forest.single] using hdistinct)
        (by simp [Program.moveTo, Program.updateBlock, Program.remove, Program.modify, hdetached])
        (by rwa [Program.size_moveTo]) (by rw [hop, hregion]) h
      refine ⟨?_, hqdet, hqsize.trans (Program.size_moveTo p c device), fun id => by rw [hqop, hop]⟩
      rw [hqbody, Forest.append_assoc]
      rfl

/-- The body of a program, put in a new device. -/
theorem Program.Sound.wraps (hp : p.Sound) (hbody : q.body = .single p.slots.size p.body)
    (hdetached : q.detached = []) (hsize : q.slots.size = p.slots.size + 1)
    (hold : ∀ id < p.slots.size, q.op id = p.op id)
    (hdevice : q.op p.slots.size = defaultDevice) : p.Wraps q := by
  have hwalk : ∀ id, id ∈ q.walk ↔ id = p.slots.size ∨ id ∈ p.walk := fun id => by
    rw [Program.walk, hbody, Program.walk]
    simp [Forest.single]
  have hdistinct : q.body.Distinct := by
    rw [hbody, Forest.Distinct]
    simpa [Forest.single] using ⟨hp.toWellFormed.notMem_walk, hp.distinct⟩
  refine ⟨⟨⟨hdistinct, fun id hid => ?_⟩, by simp [hdetached]⟩, ?_, hold, fun id hid hge => ?_,
    fun id hid => (hwalk id).2 (.inr hid), fun id hid => ?_, fun a ha => ?_, ?_⟩
  · rw [hsize]
    rcases (hwalk id).1 hid with rfl | hid
    · exact Nat.lt_succ_self _
    · exact Nat.lt_succ_of_lt (hp.created id hid)
  · rw [hsize]
    exact Nat.le_succ _
  · rw [hsize] at hid
    obtain rfl := Nat.le_antisymm (Nat.lt_succ_iff.1 hid) hge
    exact hdevice
  · rcases (hwalk id).1 hid with rfl | hid
    · exact .inr hdevice
    · exact .inl hid
  · obtain ⟨g, hg, hbelow⟩ := Program.exists_below ha
    have hne : p.slots.size ≠ a := fun heq => Nat.ne_of_gt (hp.created a ha) heq
    have hgq : q.body.below? a = some g := by
      rw [hbody, Forest.single, Forest.below?, if_neg hne, hg, Option.some_or]
    rw [Program.walkIn, Program.below_of_below? hgq, Program.walkIn, hbelow]
  · refine List.ne_nil_of_mem (a := p.slots.size) (Program.mem_devices.2 ⟨?_, ?_⟩)
    · rw [hbody]
      exact List.mem_cons_self
    · rw [hdevice]
      rfl

/-- A program with a device stays as it is, and any other one is put in a new device. -/
theorem wrapInDevice_cases (hp : p.Sound) (hdetached : p.detached = [])
    (h : runOn wrapInDevice p = (.ok (), q)) : (p.devices ≠ [] ∧ q = p) ∨
      (p.devices = [] ∧ q.body = .single p.slots.size p.body ∧ q.detached = [] ∧
        q.slots.size = p.slots.size + 1 ∧ (∀ id < p.slots.size, q.op id = p.op id) ∧
        q.op p.slots.size = defaultDevice ∧ q.attributes = p.attributes) := by
  rw [wrapInDevice, get_bind_ok] at h
  split at h
  · rename_i hdevices
    obtain ⟨device, r, hinsert, h⟩ := bind_ok.1 h
    rw [runOn_modifyGet, Prod.mk.injEq, Except.ok.injEq] at hinsert
    obtain ⟨rfl, rfl⟩ := hinsert
    rw [Program.fst_insertAt] at h
    have hnew := Program.created_insertAt hp none 0 defaultDevice
    have hdevice := hnew.new fun a ha => nomatch ha
    have hbody : (p.insertAt none 0 defaultDevice).2.body = .cons p.slots.size .nil p.body := by
      rw [Program.body_insertAt_none]
      cases p.body <;> rfl
    obtain ⟨hqbody, hqdetached, hqsize, hqop⟩ := moveAll_ok hbody hnew.sound.distinct hdetached
      (hnew.size ▸ Nat.lt_succ_self _) (by rw [hdevice]; rfl) h
    have hattributes : q.attributes = p.attributes :=
      forM_induction (I := fun r => r.attributes = p.attributes) h rfl fun id _ r s hr hmove => by
        rw [runOn_moveTo, Prod.mk.injEq] at hmove
        obtain ⟨-, rfl⟩ := hmove
        exact hr
    refine .inr ⟨by simpa [List.isEmpty_iff] using hdevices, by rw [hqbody, Forest.nil_append],
      hqdetached, hqsize.trans hnew.size, fun id hid => ?_, (hqop _).trans hdevice, hattributes⟩
    rw [hqop, Program.op_congr (Program.slot_insertAt_none hid 0 defaultDevice)]
  · rename_i hdevices
    obtain ⟨-, rfl⟩ := pure_ok.1 h
    exact .inl ⟨by simpa [List.isEmpty_iff] using hdevices, rfl⟩

/-- A program without a device is wrapped in one. -/
theorem wrapInDevice_wraps (hp : p.Sound) (hdetached : p.detached = [])
    (h : runOn wrapInDevice p = (.ok (), q)) : p.Wraps q := by
  rcases wrapInDevice_cases hp hdetached h with
    ⟨hdevices, rfl⟩ | ⟨-, hbody, hdetached', hsize, hold, hdevice, -⟩
  · exact ⟨hp, Nat.le_refl _, fun _ _ => rfl, fun _ hid hge => absurd hid (Nat.not_lt.2 hge),
      fun _ hid => hid, fun _ hid => .inl hid, fun _ _ => rfl, hdevices⟩
  · exact hp.wraps hbody hdetached' hsize hold hdevice

/-! ### Structured control flow -/

/-- Loops and conditionals are renamed, and terminators are erased. -/
def EditRule.structured : EditRule where
  creates _ _ _ := False
  changes p id op := ((p.op id).is "scf.for" = true ∧ op = { p.op id with name := "cf.loop" }) ∨
    ((p.op id).is "scf.if" = true ∧ op = { p.op id with name := "cf.cond" })
  erases p id := (p.op id).is "scf.yield" = true

/-- Renaming control flow does not touch other names. -/
theorem EditRule.structured_is {op : Operation} (h : EditRule.structured.changes p id op)
    {name : String} (hname : name ∉ ["scf.for", "scf.if", "cf.loop", "cf.cond"]) :
    op.is name = (p.op id).is name := by
  simp only [List.mem_cons, List.not_mem_nil, or_false, not_or] at hname
  obtain ⟨hfor, hif, hloop, hcond⟩ := hname
  rcases h with ⟨hold, rfl⟩ | ⟨hold, rfl⟩
  · rw [Operation.not_is_of_is hold (Ne.symm hfor)]
    exact Operation.not_is_of_is (a := "cf.loop") rfl (Ne.symm hloop)
  · rw [Operation.not_is_of_is hold (Ne.symm hif)]
    exact Operation.not_is_of_is (a := "cf.cond") rfl (Ne.symm hcond)

/-- Lowering loops leaves devices alone. -/
theorem EditRule.structured_sparesDevices : EditRule.structured.SparesDevices where
  creates _ _ _ hop := hop.elim
  changes _ _ _ hop := structured_is hop (by decide)
  erases _ _ hop := Operation.not_is_of_is hop (by decide)

/-- Lowering loops makes the names of loops and conditionals only. -/
theorem EditRule.structured_names : EditRule.structured.Names ["cf.loop", "cf.cond"] where
  creates _ _ _ hop := hop.elim
  changes p id op hop := by
    rcases hop with ⟨-, rfl⟩ | ⟨-, rfl⟩ <;> simp

/-- The names of loops and conditionals go, and do not come back. -/
theorem EditRule.structured_keeps {name : String} (hname : name ∈ ["scf.for", "scf.if"]) :
    EditRule.structured.Keeps fun op => op.is name = false where
  header _ _ hab ha := (hab.is name).trans ha
  creates _ _ _ hop := hop.elim
  changes p id op hop _ := by
    rcases hop with ⟨-, rfl⟩ | ⟨-, rfl⟩
    · exact Operation.not_is_of_is (a := "cf.loop") rfl (by rintro rfl; simp at hname)
    · exact Operation.not_is_of_is (a := "cf.cond") rfl (by rintro rfl; simp at hname)

/-- A loop or a conditional gets another name. -/
theorem lowerControl_ok (hid : id < p.slots.size)
    (h : runOn (lowerControl id) p = (.ok (), q)) :
    p.Edits .structured q ∧ ∀ name ∈ ["scf.for", "scf.if"], (q.op id).is name = false := by
  rw [lowerControl, get_bind_ok] at h
  dsimp only at h
  split at h
  · rename_i hfor
    obtain ⟨-, h⟩ := ensure_bind_ok.1 h
    rw [runOn_update, Prod.mk.injEq] at h
    obtain ⟨-, rfl⟩ := h
    refine ⟨.single (.change id _ hid (.inl ⟨hfor, rfl⟩) rfl), fun name hname => ?_⟩
    rw [Program.op_modify_self hid]
    exact Operation.not_is_of_is (a := "cf.loop") rfl (by rintro rfl; simp at hname)
  · rename_i hfor
    split at h
    · rename_i hif
      rw [runOn_update, Prod.mk.injEq] at h
      obtain ⟨-, rfl⟩ := h
      refine ⟨.single (.change id _ hid (.inr ⟨hif, rfl⟩) rfl), fun name hname => ?_⟩
      rw [Program.op_modify_self hid]
      exact Operation.not_is_of_is (a := "cf.cond") rfl
        (by rintro rfl; simp at hname)
    · rename_i hif
      obtain ⟨-, rfl⟩ := pure_ok.1 h
      refine ⟨.refl, fun name hname => ?_⟩
      simp only [List.mem_cons, List.not_mem_nil, or_false] at hname
      rcases hname with rfl | rfl
      · simpa using hfor
      · simpa using hif

/-- The names of structured control flow. -/
def structuredNames : List String :=
  ["scf.for", "scf.if", "scf.yield"]

/-- The terminators are erased. -/
theorem eraseYields_edits (hp : p.Sound)
    (h : runOn ((p.findAll "scf.yield").forM Action.erase) p = (.ok (), q)) :
    p.Edits .structured q ∧ ∀ id ∈ q.walk, (q.op id).is "scf.yield" = false := by
  have hyield : ∀ p id op, EditRule.structured.changes p id op →
      op.is "scf.yield" = (p.op id).is "scf.yield" :=
    fun _ _ _ hop => EditRule.structured_is hop (by decide)
  obtain ⟨hedits, hgone⟩ : p.Edits .structured q ∧ ∀ id ∈ p.findAll "scf.yield", id ∉ q.walk :=
    forM_edits_gone hp (fun id hid => hp.created id (List.mem_filter.1 hid).1) h
      fun id hid s t hs hedits hrun => by
        obtain ⟨hmem, hname⟩ := List.mem_filter.1 hid
        rw [runOn_erase, Prod.mk.injEq] at hrun
        obtain ⟨-, rfl⟩ := hrun
        refine ⟨s, .refl, ?_, rfl⟩
        exact (hedits.is_eq hp hyield (hp.created id hmem)).trans hname
  refine ⟨hedits, fun id hid => ?_⟩
  have hev := hedits.evolves hp
  have hlt : id < p.slots.size := (hedits.size_eq fun _ _ _ hop => hop) ▸ hev.sound.created id hid
  rw [hedits.is_eq hp hyield hlt]
  rcases hname : (p.op id).is "scf.yield" with _ | _
  · rfl
  · exact absurd hid (hgone id (List.mem_filter.2 ⟨hev.walk id hid hlt, hname⟩))

/-- The loops and conditionals are renamed. -/
theorem lowerControls_edits (hp : p.Sound)
    (h : runOn (p.walk.forM lowerControl) p = (.ok (), q)) :
    p.Edits .structured q ∧ ∀ id ∈ p.walk, ∀ name ∈ ["scf.for", "scf.if"],
      (q.op id).is name = false :=
  forM_edits_done (D := fun id s => ∀ name ∈ ["scf.for", "scf.if"], (s.op id).is name = false)
    hp h (fun id hid _ _ _ hedits hrun =>
      lowerControl_ok (Nat.lt_of_lt_of_le (hp.created id hid) (hedits.size_le hp)) hrun)
    fun id hid _ _ hs hedits hD name hname =>
      hedits.keeps (EditRule.structured_keeps hname) (hs.sound hp)
        (Nat.lt_of_lt_of_le (hp.created id hid) ((hs.trans hedits).size_le hp))
        fun _ => hD name hname

/-- Terminators are erased and loops and conditionals renamed, and none of them is left. -/
theorem lowerStructured_edits (hp : p.Sound)
    (h : runOn Stage.lowerStructured.action p = (.ok (), q)) :
    p.Edits .structured q ∧ ∀ id ∈ q.walk, ∀ name ∈ structuredNames, (q.op id).is name = false := by
  change runOn TileFlow.lowerStructured p = (.ok (), q) at h
  rw [TileFlow.lowerStructured, get_bind_ok] at h
  obtain ⟨_, r, hyields, h⟩ := bind_ok.1 h
  rw [get_bind_ok] at h
  obtain ⟨hr, hgone⟩ := eraseYields_edits hp hyields
  have hrs := hr.sound hp
  obtain ⟨hq, hdone⟩ := lowerControls_edits hrs h
  refine ⟨hr.trans hq, fun id hid name hname => ?_⟩
  have hev := hq.evolves hrs
  have hlt : id < r.slots.size := (hq.size_eq fun _ _ _ hop => hop) ▸ hev.sound.created id hid
  have hidr := hev.walk id hid hlt
  rw [structuredNames, List.mem_cons, List.mem_cons, List.mem_singleton] at hname
  rcases hname with rfl | rfl | rfl
  · exact hdone id hidr _ (by decide)
  · exact hdone id hidr _ (by decide)
  · rw [hq.is_eq hrs (fun _ _ _ hop => EditRule.structured_is hop (by decide)) hlt]
    exact hgone id hidr

end TileFlow
