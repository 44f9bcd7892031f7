import TileFlow.Proofs.Program.Evolution
import TileFlow.Proofs.Stage.Action
import TileFlow.Stage.Basic

/-!
# Stages as runs of edits

The edits of an action are those of its parts, one after the other. Five stages have one shape: in
every device they visit the operations with a name, put others in their place and erase them. Such a
stage leaves no operation with the name, and this follows from what it does at one of them.

## Main definitions

* `EditRule.Dissolves`: edits that erase the operations with a name and make no new one.
* `EditRule.Names`: the names that edits give.

## Main results

* `Action.forM_edits`: the edits of a loop.
* `Stage.onEachDevice_ok`: what a stage gets done in each device.
* `Stage.dissolves_fold`, `Stage.dissolves_device`, `Stage.dissolves`: a loop, or a stage, that
  erases the operations with a name.
* `Stage.findIn_idle`: such a stage has nothing to do where there are none.
-/

namespace TileFlow

variable {rule : EditRule} {p q r s : Program} {id device : OpId} {op : Operation}

namespace Action

/-! ### Single edits -/

/-- A creation before another operation is one at some place, and never fails. -/
theorem insertBefore_ok {anchor : OpId}
    (h : runOn (Action.insertBefore anchor op) p = (.ok id, q)) :
    id = p.slots.size ∧ ∃ parent i, q = (p.insertAt parent i op).2 := by
  obtain ⟨parent, i, heq⟩ := p.insertBefore_eq anchor op
  rw [runOn_insertBefore, heq, Prod.mk.injEq, Except.ok.injEq] at h
  exact ⟨h.1.symm, parent, i, h.2.symm⟩

/-- A creation before another operation that a rule allows is an edit by the rule. -/
theorem insertBefore_edits {anchor : OpId}
    (h : runOn (Action.insertBefore anchor op) p = (.ok id, q))
    (creates : ∀ parent, rule.creates p parent op)
    (fresh : ∀ v, op.result = some v → v ∉ p.definedValues) : p.Edits rule q := by
  obtain ⟨-, parent, i, rfl⟩ := insertBefore_ok h
  exact .single (.create parent i op (creates parent) fresh)

/-- A creation behind others that a rule allows is an edit by the rule. -/
theorem append_edits {parent : OpId} (h : runOn (Action.append parent op) p = (.ok id, q))
    (creates : rule.creates p (some parent) op)
    (fresh : ∀ v, op.result = some v → v ∉ p.definedValues) : p.Edits rule q := by
  rw [runOn_append, Prod.mk.injEq] at h
  obtain ⟨-, rfl⟩ := h
  exact .single (.create (some parent) _ op creates fresh)

/-- A creation behind others adds an operation below their parent. -/
theorem append_created {parent : OpId} (hp : p.Sound)
    (h : runOn (Action.append parent op) p = (.ok id, q)) :
    id = p.slots.size ∧ p.Created (some parent) op q := by
  rw [runOn_append, Prod.mk.injEq, Except.ok.injEq] at h
  obtain ⟨rfl, rfl⟩ := h
  exact ⟨Program.fst_insertAt p _ _ op, Program.created_insertAt hp _ _ op⟩

/-! ### Loops -/

variable {β : Type} {l : List β} {f : β → Action Unit}

/-- A loop makes the edits of its rounds. -/
theorem forM_edits (hp : p.Sound) (h : runOn (l.forM f) p = (.ok (), q))
    (step : ∀ b ∈ l, ∀ r s, r.Sound → p.Edits rule r → runOn (f b) r = (.ok (), s) →
      r.Edits rule s) : p.Edits rule q :=
  forM_induction (I := p.Edits rule) h .refl fun b hb r s hr hrun =>
    hr.trans (step b hb r s (hr.sound hp) hr hrun)

/-- A loop whose rounds get something done that no later edit undoes gets all of it done. -/
theorem forM_edits_done {D : β → Program → Prop} (hp : p.Sound)
    (h : runOn (l.forM f) p = (.ok (), q))
    (step : ∀ b ∈ l, ∀ r s, r.Sound → p.Edits rule r → runOn (f b) r = (.ok (), s) →
      r.Edits rule s ∧ D b s)
    (keep : ∀ b ∈ l, ∀ r s, p.Edits rule r → r.Edits rule s → D b r → D b s) :
    p.Edits rule q ∧ ∀ b ∈ l, D b q := by
  have hloop := forM_reaches (I := p.Edits rule) (D := fun b r => b ∈ l ∧ D b r)
    (T := fun b c => c = b) h .refl fun b hb r s hr hrun => by
      obtain ⟨hedits, hdone⟩ := step b hb r s (hr.sound hp) hr hrun
      exact ⟨hr.trans hedits, fun c hc => ⟨hc.1, keep c hc.1 r s hr hedits hc.2⟩,
        fun c hc => hc ▸ ⟨hb, hdone⟩⟩
  exact ⟨hloop.1, fun b hb => (hloop.2.2 b hb b rfl).2⟩

/-- A loop with an intermediate result whose rounds erase their operations leaves none of them. -/
theorem foldlM_edits_gone {α : Type} {l : List OpId} {f : α → OpId → Action α} {a b : α}
    (hp : p.Sound) (hl : ∀ id ∈ l, id < p.slots.size) (h : runOn (l.foldlM f a) p = (.ok b, q))
    (step : ∀ id ∈ l, ∀ a b r s, r.Sound → p.Edits rule r → runOn (f a id) r = (.ok b, s) →
      ∃ t, r.Edits rule t ∧ rule.erases t id ∧ s = t.erase id) :
    p.Edits rule q ∧ ∀ id ∈ l, id ∉ q.walk := by
  induction l generalizing p a with
  | nil =>
      obtain ⟨-, rfl⟩ := foldlM_nil_ok.1 h
      exact ⟨.refl, fun _ hid => nomatch hid⟩
  | cons c l ih =>
      obtain ⟨a', r, hc, h⟩ := foldlM_cons_ok.1 h
      obtain ⟨t, ht, hop, rfl⟩ := step c List.mem_cons_self a a' p r hp .refl hc
      have hlt : c < t.slots.size := Nat.lt_of_lt_of_le (hl c List.mem_cons_self) (ht.size_le hp)
      have herase : p.Edits rule (t.erase c) := ht.trans (.single (.erase c hlt hop))
      have hsound := herase.sound hp
      have hgone : c ∉ (t.erase c).walk := fun hmem =>
        (((Program.cut_erase (ht.sound hp) hlt).walk c).1 hmem).2.1 rfl
      obtain ⟨hrest, hnone⟩ := ih hsound
        (fun id hid => Nat.lt_of_lt_of_le (hl id (List.mem_cons_of_mem _ hid)) (herase.size_le hp))
          h
        fun id hid a b r s hr hedits hrun =>
          step id (List.mem_cons_of_mem _ hid) a b r s hr (herase.trans hedits) hrun
      refine ⟨herase.trans hrest, List.forall_mem_cons.2 ⟨?_, hnone⟩⟩
      exact hrest.notMem_walk hsound
        (Nat.lt_of_lt_of_le (hl c List.mem_cons_self) (herase.size_le hp)) hgone

/-- A loop whose rounds erase their operations leaves none of them. -/
theorem forM_edits_gone {l : List OpId} {f : OpId → Action Unit} (hp : p.Sound)
    (hl : ∀ id ∈ l, id < p.slots.size) (h : runOn (l.forM f) p = (.ok (), q))
    (step : ∀ id ∈ l, ∀ r s, r.Sound → p.Edits rule r → runOn (f id) r = (.ok (), s) →
      ∃ t, r.Edits rule t ∧ rule.erases t id ∧ s = t.erase id) :
    p.Edits rule q ∧ ∀ id ∈ l, id ∉ q.walk :=
  foldlM_edits_gone hp hl (forM_eq_ok_iff_foldlM.1 h) fun id hid _ _ => step id hid

end Action

open TileFlow.Action

/-! ### Operations with a name -/

/-- Edits that change no name, or at least none to or from a given one. -/
theorem Program.Edits.is_eq {name : String} (hp : p.Sound) (h : p.Edits rule q)
    (changes : ∀ p id op, rule.changes p id op → op.is name = (p.op id).is name)
    (hid : id < p.slots.size) : (q.op id).is name = (p.op id).is name :=
  h.forall_op (K := fun id op => id < p.slots.size → op.is name = (p.op id).is name) hp
    (fun _ _ _ hab hK hlt => (hab.is name).trans (hK hlt))
    (fun _ _ _ hr _ _ hlt => absurd hlt (Nat.not_lt.2 (hr.size_le hp)))
    (fun r id op _ hop hK hlt => (changes r id op hop).trans (hK hlt))
    (fun _ _ _ => rfl) id (Nat.lt_of_lt_of_le hid (h.size_le hp)) hid

/-- Whether edits under a rule may erase the operations with a name, and make no new one. -/
structure EditRule.Dissolves (rule : EditRule) (name : String) : Prop where
  creates : ∀ p parent op, rule.creates p parent op → op.is name = false
  changes : ∀ p id op, rule.changes p id op → op.is name = (p.op id).is name
  erases : ∀ p id, (p.op id).is name = true → rule.erases p id

/-- A rule that dissolves the operations with a name never makes any. -/
theorem EditRule.Dissolves.keeps {name : String} (h : rule.Dissolves name) :
    rule.Keeps fun op => op.is name = false where
  header _ _ hab ha := (hab.is name).trans ha
  creates := h.creates
  changes p id op hop hname := (h.changes p id op hop).trans hname

/-- Whether edits under a rule give no operation a name that it has not before, apart from those of
a list. -/
structure EditRule.Names (rule : EditRule) (names : List String) : Prop where
  creates : ∀ p parent op, rule.creates p parent op → op.name ∈ names
  changes : ∀ p id op, rule.changes p id op → op.name = (p.op id).name ∨ op.name ∈ names

/-- What holds of the names that edits may give is kept. -/
theorem EditRule.Names.keeps {names : List String} (h : rule.Names names) {N : String → Prop}
    (hnames : ∀ name ∈ names, N name) : rule.Keeps fun op => N op.name where
  header _ _ hab ha := hab.name.symm ▸ ha
  creates p parent op hop := hnames _ (h.creates p parent op hop)
  changes p id op hop ha := (h.changes p id op hop).elim (fun heq => heq.symm ▸ ha) (hnames _)

/-- Edits that do not give a name leave operations without it. -/
theorem EditRule.Names.keeps_ne {names : List String} (h : rule.Names names) {name : String}
    (hname : name ∉ names) : rule.Keeps fun op => op.name ≠ name :=
  h.keeps (N := fun other => other ≠ name) fun _ hother heq => hname (heq ▸ hother)

/-- An operation has a name that edits do not give only if it had it before. -/
theorem Program.Edits.old_of_name {name : String} (hgives : rule.Keeps fun op => op.name ≠ name)
    (hp : p.Sound) (h : p.Edits rule q) (hid : id < q.slots.size) (hq : (q.op id).name = name) :
    id < p.slots.size ∧ (p.op id).name = name :=
  Classical.byContradiction fun hold =>
    h.keeps hgives hp hid (fun hlt heq => hold ⟨hlt, heq⟩) hq

/-- What is found in a device under a name that edits do not give was found there before. -/
theorem Program.Edits.findIn_of_old {name : String} (hgives : rule.Keeps fun op => op.name ≠ name)
    (hp : p.Sound) (h : p.Edits rule q) (hdevice : device ∈ q.walk)
    (hid : id ∈ q.findIn device name) : id ∈ p.findIn device name := by
  obtain ⟨hin, his⟩ := List.mem_filter.1 hid
  have hev := h.evolves hp
  obtain ⟨hlt, hold⟩ := h.old_of_name hgives hp (hev.sound.lt_size_of_walkIn hin)
    (beq_iff_eq.1 his)
  exact List.mem_filter.2 ⟨hev.mem_walkIn hdevice hin hlt, beq_iff_eq.2 hold⟩

namespace Stage

/-- What a stage gets done in each device, if no later edit undoes it. -/
theorem onEachDevice_ok {f : OpId → Action Unit} {D : OpId → Program → Prop}
    (hrule : rule.SparesDevices) (hp : p.Sound) (h : runOn (onEachDevice f) p = (.ok (), q))
    (step : ∀ device r s, r.Sound → p.Edits rule r → device ∈ r.devices →
      runOn (f device) r = (.ok (), s) → r.Edits rule s ∧ D device s)
    (keep : ∀ device r s, r.Sound → device ∈ s.devices → r.Edits rule s → D device r →
      D device s) : p.Edits rule q ∧ ∀ device ∈ q.devices, D device q := by
  rw [onEachDevice, get_bind_ok] at h
  obtain ⟨hedits, hdone⟩ := forM_edits_done (D := D) hp h
    (fun device hdevice r s hr hedits hrun =>
      step device r s hr hedits ((hedits.mem_devices hrule hp).2 hdevice) hrun)
    fun device hdevice r s hr hedits => keep device r s (hr.sound hp)
      (((hr.trans hedits).mem_devices hrule hp).2 hdevice) hedits
  exact ⟨hedits, fun device hdevice => hdone device ((hedits.mem_devices hrule hp).1 hdevice)⟩

/-- A loop with an intermediate result that puts other operations in the place of those of a device
with a name leaves none of them there. -/
theorem dissolves_fold {α : Type} {name : String} {f : α → OpId → Action α} {a b : α}
    (hrule : rule.SparesDevices) (hname : rule.Dissolves name) (hp : p.Sound)
    (hdevice : device ∈ p.devices)
    (h : runOn ((p.findIn device name).foldlM f a) p = (.ok b, q))
    (step : ∀ x a b r s, r.Sound → p.Edits rule r → x < r.slots.size → (r.op x).is name = true →
      (x ∈ r.walk → x ∈ r.walkIn device) → runOn (f a x) r = (.ok b, s) →
      ∃ t, r.Edits rule t ∧ s = t.erase x) :
    p.Edits rule q ∧ ∀ id ∈ q.walkIn device, (q.op id).is name = false := by
  have hwalk := Program.mem_walk_of_mem_devices hdevice
  have hlist : ∀ x ∈ p.findIn device name, x < p.slots.size ∧ x ∈ p.walkIn device ∧
      (p.op x).is name = true := fun x hx =>
    have hmem := List.mem_filter.1 hx
    ⟨hp.lt_size_of_walkIn hmem.1, hmem⟩
  have hloop : p.Edits rule q ∧ ∀ x ∈ p.findIn device name, x ∉ q.walk :=
    foldlM_edits_gone hp (fun x hx => (hlist x hx).1) h fun x hx a b t u ht hedits hround => by
      obtain ⟨hlt, hbelow, his⟩ := hlist x hx
      have hev := hedits.evolves hp
      have hdevice' := Program.mem_walk_of_mem_devices ((hedits.mem_devices hrule hp).2 hdevice)
      obtain ⟨v, hv, rfl⟩ := step x a b t u ht hedits (Nat.lt_of_lt_of_le hlt hev.size)
        ((hedits.is_eq hp hname.changes hlt).trans his)
        (fun hmem => (hev.walkIn device hdevice' x hmem hlt).2 ⟨hp.created device hwalk, hbelow⟩)
        hround
      refine ⟨v, hv, hname.erases v x ?_, rfl⟩
      rw [(hedits.trans hv).is_eq hp hname.changes hlt, his]
  exact ⟨hloop.1, hloop.1.forall_not_is hname.keeps hp
    (Program.mem_walk_of_mem_devices ((hloop.1.mem_devices hrule hp).2 hdevice)) hloop.2⟩

/-- A loop that puts other operations in the place of those of a device with a name leaves none of
them there. -/
theorem dissolves_device {name : String} {f : OpId → Action Unit} (hrule : rule.SparesDevices)
    (hname : rule.Dissolves name) (hp : p.Sound) (hdevice : device ∈ p.devices)
    (h : runOn ((p.findIn device name).forM f) p = (.ok (), q))
    (step : ∀ x r s, r.Sound → p.Edits rule r → x < r.slots.size → (r.op x).is name = true →
      (x ∈ r.walk → x ∈ r.walkIn device) → runOn (f x) r = (.ok (), s) →
      ∃ t, r.Edits rule t ∧ s = t.erase x) :
    p.Edits rule q ∧ ∀ id ∈ q.walkIn device, (q.op id).is name = false :=
  dissolves_fold hrule hname hp hdevice (forM_eq_ok_iff_foldlM.1 h) fun x _ _ => step x

/-- A stage that puts other operations in the place of those with a name leaves none of them in any
device. -/
theorem dissolves {name : String} {f : OpId → OpId → Action Unit} (hrule : rule.SparesDevices)
    (hname : rule.Dissolves name) (hp : p.Sound)
    (h : runOn (onEachDevice fun device => do ((← get).findIn device name).forM (f device)) p =
      (.ok (), q))
    (step : ∀ device x r s, r.Sound → p.Edits rule r → device ∈ r.devices → x < r.slots.size →
      (r.op x).is name = true → (x ∈ r.walk → x ∈ r.walkIn device) →
      runOn (f device x) r = (.ok (), s) → ∃ t, r.Edits rule t ∧ s = t.erase x) :
    p.Edits rule q ∧ ∀ device ∈ q.devices, ∀ id ∈ q.walkIn device, (q.op id).is name = false := by
  refine onEachDevice_ok (D := fun device r => ∀ id ∈ r.walkIn device, (r.op id).is name = false)
    hrule hp h (fun device r s hr hpr hdevice hrun => ?_)
    fun device r s hr hdevice hedits =>
      hedits.forall_walkIn hname.keeps hr (Program.mem_walk_of_mem_devices hdevice)
  rw [get_bind_ok] at hrun
  exact dissolves_device hrule hname hr hdevice hrun fun x t u ht hedits hlt his hbelow =>
    step device x t u ht (hpr.trans hedits) ((hedits.mem_devices hrule hr).2 hdevice) hlt his hbelow

/-- A stage that leaves the program as it is in every device leaves it as it is. -/
theorem onEachDevice_idle {f : OpId → Action Unit}
    (h : ∀ device ∈ p.devices, runOn (f device) p = (.ok (), p)) :
    runOn (onEachDevice f) p = (.ok (), p) := by
  rw [onEachDevice, get_bind_ok]
  exact forM_idle h

/-- A stage that replaces the operations with a name has nothing to do where there are none. -/
theorem findIn_idle {name : String} {f : OpId → OpId → Action Unit}
    (h : ∀ device ∈ p.devices, ∀ id ∈ p.walkIn device, (p.op id).is name = false) :
    runOn (onEachDevice fun device => do ((← get).findIn device name).forM (f device)) p =
      (.ok (), p) := by
  refine onEachDevice_idle fun device hdevice => ?_
  have hnone : p.findIn device name = [] :=
    List.filter_eq_nil_iff.2 fun id hid => by simp [h device hdevice id hid]
  rw [get_bind_ok, hnone]
  exact forM_nil_ok.2 rfl

end Stage

end TileFlow
