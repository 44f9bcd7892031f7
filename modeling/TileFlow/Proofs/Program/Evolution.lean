import Mathlib.Logic.Relation
import TileFlow.Proofs.Device.Placement
import TileFlow.Proofs.Program.Sound

/-!
# Runs of edits

A stage edits a program step by step. What each step may do is told by a rule: the operations that
are created, what an operation may become, and the operations that are erased with all below them.
What a run of edits does to the operations of the body follows from one step.

## Main definitions

* `EditRule`, `Program.Edit`, `Program.Edits`: the edits that a rule allows.
* `Program.Evolves`: what no edit changes about the operations that are there.
* `EditRule.Keeps`: a property of operations that no edit takes away.
* `EditRule.any`, `EditRule.without`: rules that allow more, or less.

## Main results

* `Program.Edits.evolves`: the operations of before keep their places.
* `Program.Edits.forall_op`, `Program.Edits.forall_walk`, `Program.Edits.forall_walkIn`: what every
  operation keeps.
* `Program.Edits.mem_devices`: the devices.
* `Program.Edits.body_eq`, `Program.Edits.mem_walk`: the body under edits that erase nothing.
* `Program.Edits.nodup`, `Program.Edits.resolves`: the values.
-/

namespace TileFlow

/-- What the edits of a stage may do: the operations that they create at a place, what an operation
becomes, and the operations that they erase. -/
structure EditRule where
  creates : Program → Option OpId → Operation → Prop
  changes : Program → OpId → Operation → Prop
  erases : Program → OpId → Prop

namespace Program

variable {rule rule' : EditRule} {p q r s : Program} {id : OpId}

/-- One edit that a rule allows. It defines no value again, and changes none. -/
inductive Edit (rule : EditRule) (p : Program) : Program → Prop
  | create (parent : Option OpId) (i : Nat) (op : Operation) (allowed : rule.creates p parent op)
      (fresh : ∀ v, op.result = some v → v ∉ p.definedValues) :
      Edit rule p (p.insertAt parent i op).2
  | change (id : OpId) (f : Operation → Operation) (created : id < p.slots.size)
      (allowed : rule.changes p id (f (p.op id)))
      (result : (f (p.op id)).result = (p.op id).result) :
      Edit rule p (p.modify id f)
  | erase (id : OpId) (created : id < p.slots.size) (allowed : rule.erases p id) :
      Edit rule p (p.erase id)

/-- Edits that a rule allows, one after the other. -/
abbrev Edits (rule : EditRule) : Program → Program → Prop :=
  Relation.ReflTransGen (Edit rule)

/-- An operation without a result defines no value again. -/
theorem fresh_of_none {op : Operation} (h : op.result = none) :
    ∀ v, op.result = some v → v ∉ p.definedValues := fun v hv => by
  rw [h] at hv
  cases hv

/-- Edits by a rule may follow others. -/
theorem Edits.trans (h : p.Edits rule q) (h' : q.Edits rule r) : p.Edits rule r :=
  Relation.ReflTransGen.trans h h'

/-! ### Places -/

/-- A program whose operations, as far as they were there before, are where they were. -/
structure Evolves (p q : Program) : Prop where
  sound : q.Sound
  size : p.slots.size ≤ q.slots.size
  walk : ∀ id ∈ q.walk, id < p.slots.size → id ∈ p.walk
  walkIn : ∀ a ∈ q.walk, ∀ id ∈ q.walk, id < p.slots.size →
    (id ∈ q.walkIn a ↔ a < p.slots.size ∧ id ∈ p.walkIn a)

/-- A program evolves into itself. -/
theorem Evolves.refl (hp : p.Sound) : p.Evolves p :=
  ⟨hp, Nat.le_refl _, fun _ hid _ => hid, fun a ha _ _ _ =>
    ⟨fun h => ⟨hp.created a ha, h⟩, fun h => h.2⟩⟩

/-- Evolutions may follow each other. -/
theorem Evolves.trans (h : p.Evolves q) (h' : q.Evolves r) : p.Evolves r where
  sound := h'.sound
  size := Nat.le_trans h.size h'.size
  walk id hid hlt := h.walk id (h'.walk id hid (Nat.lt_of_lt_of_le hlt h.size)) hlt
  walkIn a ha id hid hlt := by
    have hltq := Nat.lt_of_lt_of_le hlt h.size
    have hidq := h'.walk id hid hltq
    rw [h'.walkIn a ha id hid hltq]
    constructor
    · rintro ⟨hlta, hbelow⟩
      exact (h.walkIn a (h'.walk a ha hlta) id hidq hlt).1 hbelow
    · rintro ⟨hlta, hbelow⟩
      have hltaq := Nat.lt_of_lt_of_le hlta h.size
      exact ⟨hltaq, (h.walkIn a (h'.walk a ha hltaq) id hidq hlt).2 ⟨hlta, hbelow⟩⟩

/-- A creation is an evolution. -/
theorem Created.evolves {parent : Option OpId} {op : Operation} (h : p.Created parent op q)
    (hp : p.Sound) : p.Evolves q := by
  have hold : ∀ id ∈ q.walk, id < p.slots.size → id ∈ p.walk := fun id hid hlt => by
    rcases (h.walk id).1 hid with hid | ⟨rfl, -⟩
    · exact hid
    · exact absurd hlt (Nat.lt_irrefl _)
  refine ⟨h.sound, h.size ▸ Nat.le_succ _, hold, fun a ha id hid hlt => ?_⟩
  rcases (h.walk a).1 ha with hap | ⟨rfl, hholds⟩
  · rw [h.walkIn a hap]
    refine ⟨fun hbelow => ⟨hp.created a hap, hbelow.resolve_right ?_⟩, fun hbelow => .inl hbelow.2⟩
    rintro ⟨rfl, -⟩
    exact Nat.lt_irrefl _ hlt
  · rw [h.leaf hholds]
    exact ⟨fun hbelow => (nomatch hbelow), fun hbelow => absurd hbelow.1 (Nat.lt_irrefl _)⟩

/-- A cut is an evolution. -/
theorem Cut.evolves {x : OpId} (h : p.Cut x q) (hp : p.Sound) : p.Evolves q where
  sound := h.sound
  size := Nat.le_of_eq h.size.symm
  walk id hid _ := ((h.walk id).1 hid).1
  walkIn a ha id hid _ := by
    rw [h.walkIn a ha]
    exact ⟨fun hbelow => ⟨hp.created a ((h.walk a).1 ha).1, hbelow.1⟩,
      fun hbelow => ⟨hbelow.2, hid⟩⟩

/-- Every edit by a rule is an evolution. -/
theorem Edit.evolves (hp : p.Sound) (h : p.Edit rule q) : p.Evolves q := by
  cases h with
  | create parent i op => exact (created_insertAt hp parent i op).evolves hp
  | change id f =>
      have hsize : (p.modify id f).slots.size = p.slots.size := size_modify p id f
      exact ⟨hp.modify id f, Nat.le_of_eq hsize.symm, fun _ hid _ => hid, fun a ha _ _ _ =>
        ⟨fun hbelow => ⟨hp.created a ha, hbelow⟩, fun hbelow => hbelow.2⟩⟩
  | erase id hid => exact (cut_erase hp hid).evolves hp

/-- The operations of before are where they were, unless they are gone. -/
theorem Edits.evolves (hp : p.Sound) (h : p.Edits rule q) : p.Evolves q := by
  induction h with
  | refl => exact .refl hp
  | tail _ hedit ih => exact ih.trans (hedit.evolves ih.sound)

/-- Of what was below an operation, only the operations that are gone are not below it any more. -/
theorem Evolves.mem_walkIn (h : p.Evolves q) {device : OpId}
    (hdevice : device ∈ q.walk) (hid : id ∈ q.walkIn device) (hlt : id < p.slots.size) :
    id ∈ p.walkIn device :=
  ((h.walkIn device hdevice id (h.sound.mem_walk_of_walkIn hdevice hid) hlt).1 hid).2

/-- What stays is below the operations that it was below. -/
theorem Evolves.mem_walkIn_iff (h : p.Evolves q) (hp : p.Sound)
    (stays : ∀ id ∈ p.walk, id ∈ q.walk) {device : OpId} (hdevice : device ∈ p.walk)
    (hlt : id < p.slots.size) : id ∈ q.walkIn device ↔ id ∈ p.walkIn device := by
  have hdeviceq := stays device hdevice
  refine ⟨fun hid => h.mem_walkIn hdeviceq hid hlt, fun hid => ?_⟩
  have hidq := stays id (hp.mem_walk_of_walkIn hdevice hid)
  exact (h.walkIn device hdeviceq id hidq hlt).2 ⟨hp.created device hdevice, hid⟩

/-- An operation is still there when one that was below it is erased. -/
theorem Evolves.mem_walk_erase (h : p.Evolves q) (hp : p.Sound) {device : OpId}
    (hdevice : device ∈ p.walk) (hdeviceq : device ∈ q.walk) (hid : id ∈ p.walkIn device) :
    device ∈ (q.erase id).walk := by
  have hself := hp.notMem_walkIn_self hdevice
  refine (Program.mem_walk_erase h.sound).2 ⟨hdeviceq, ?_, fun hbelow => ?_⟩
  · rintro rfl
    exact hself hid
  · have hold := h.mem_walkIn (h.sound.mem_walk_of_below hbelow hdeviceq) hbelow
      (hp.created device hdevice)
    exact hself (hp.walkIn_trans hdevice hid hold)

/-! ### Operations -/

/-- A property of operations, or of what becomes of one operation, that every edit keeps holds of
all operations. -/
theorem Edits.forall_op {K : OpId → Operation → Prop} (hp : p.Sound) (h : p.Edits rule q)
    (header : ∀ id a b, a.SameHeader b → K id a → K id b)
    (creates : ∀ r parent op, p.Edits rule r → (∀ id < r.slots.size, K id (r.op id)) →
      rule.creates r parent op → K r.slots.size op)
    (changes : ∀ r id op, p.Edits rule r → rule.changes r id op → K id (r.op id) → K id op)
    (start : ∀ id < p.slots.size, K id (p.op id)) : ∀ id < q.slots.size, K id (q.op id) := by
  induction h with
  | refl => exact start
  | @tail r q hr hedit ih =>
      cases hedit with
      | create parent i op hop =>
          intro id hid
          have hnew := created_insertAt (Edits.evolves hp hr).sound parent i op
          rw [hnew.size] at hid
          rcases Nat.lt_succ_iff_lt_or_eq.1 hid with hlt | rfl
          · exact header id _ _ (hnew.old id hlt) (ih id hlt)
          · exact header _ _ _ hnew.header (creates r parent op hr ih hop)
      | change j f hj hop =>
          intro id hid
          rw [size_modify] at hid
          by_cases hidj : id = j
          · subst hidj
            rw [op_modify_self hj]
            exact changes r id _ hr hop (ih id hj)
          · rw [op_modify_of_ne hidj]
            exact ih id hid
      | erase j =>
          intro id hid
          rw [size_erase] at hid
          rw [op_erase]
          exact ih id hid

end Program

/-- A property of operations that no edit under a rule takes away, and that created ones have. -/
structure EditRule.Keeps (rule : EditRule) (K : Operation → Prop) : Prop where
  header : ∀ a b : Operation, a.SameHeader b → K a → K b
  creates : ∀ p parent op, rule.creates p parent op → K op
  changes : ∀ p id op, rule.changes p id op → K (p.op id) → K op

namespace Program

variable {rule rule' : EditRule} {p q r s : Program} {id device : OpId} {K : Operation → Prop}

/-- An operation has a property that edits keep if it is new, or had it before. -/
theorem Edits.keeps (hK : rule.Keeps K) (hp : p.Sound) (h : p.Edits rule q)
    (hid : id < q.slots.size) (start : id < p.slots.size → K (p.op id)) : K (q.op id) :=
  h.forall_op (K := fun id op => (id < p.slots.size → K (p.op id)) → K op) hp
    (fun _ a b hab hKa hstart => hK.header a b hab (hKa hstart))
    (fun r parent op _ _ hop _ => hK.creates r parent op hop)
    (fun r id op _ hop hKr hstart => hK.changes r id op hop (hKr hstart))
    (fun _ hlt hstart => hstart hlt) id hid start

/-- A property that a rule keeps, and that all operations of the body have, is had by all of them
after edits by the rule. -/
theorem Edits.forall_walk (hK : rule.Keeps K) (hp : p.Sound) (h : p.Edits rule q)
    (start : ∀ id ∈ p.walk, K (p.op id)) : ∀ id ∈ q.walk, K (q.op id) := fun id hid =>
  have hev := h.evolves hp
  h.keeps hK hp (hev.sound.created id hid) fun hlt => start id (hev.walk id hid hlt)

/-- A property that a rule keeps, and that all operations below a device have, is had by all of them
after edits by the rule. -/
theorem Edits.forall_walkIn (hK : rule.Keeps K) (hp : p.Sound) (h : p.Edits rule q)
    (hdevice : device ∈ q.walk) (start : ∀ id ∈ p.walkIn device, K (p.op id)) :
    ∀ id ∈ q.walkIn device, K (q.op id) := fun id hid =>
  have hev := h.evolves hp
  h.keeps hK hp (hev.sound.lt_size_of_walkIn hid) fun hlt =>
    start id (hev.mem_walkIn hdevice hid hlt)

/-- A list of operations that is erased leaves none with a name in the tree of a device, if it has
all of them and edits give the name to no other. -/
theorem Edits.forall_not_is {name : String} (hK : rule.Keeps fun op => op.is name = false)
    (hp : p.Sound) (h : p.Edits rule q) (hdevice : device ∈ q.walk)
    (hgone : ∀ id ∈ p.findIn device name, id ∉ q.walk) :
    ∀ id ∈ q.walkIn device, (q.op id).is name = false := fun id hid => by
  have hev := h.evolves hp
  refine h.keeps hK hp (hev.sound.lt_size_of_walkIn hid) fun hlt => ?_
  have hwalk := hev.sound.toWellFormed.mem_walk_of_walkIn hdevice hid
  rcases hname : (p.op id).is name with _ | _
  · rfl
  · exact absurd hwalk
      (hgone id (List.mem_filter.2 ⟨hev.mem_walkIn hdevice hid hlt, hname⟩))

/-- Edits never lower the number of operations that were created. -/
theorem Edits.size_le (h : p.Edits rule q) (hp : p.Sound) : p.slots.size ≤ q.slots.size :=
  (h.evolves hp).size

/-- Edits leave a program sound. -/
theorem Edits.sound (h : p.Edits rule q) (hp : p.Sound) : q.Sound :=
  (h.evolves hp).sound

/-- Nothing is new when edits create nothing. -/
theorem Edits.size_eq (creates : ∀ p parent op, ¬ rule.creates p parent op) (h : p.Edits rule q) :
    q.slots.size = p.slots.size := by
  induction h with
  | refl => rfl
  | tail _ hedit ih =>
      cases hedit with
      | create parent i op hop => exact absurd hop (creates _ parent op)
      | change id f => rw [size_modify, ih]
      | erase id => rw [size_erase, ih]

/-- Nothing moves when edits create and erase nothing. -/
theorem Edits.body_eq (creates : ∀ p parent op, ¬ rule.creates p parent op)
    (erases : ∀ p id, ¬ rule.erases p id) (h : p.Edits rule q) :
    q.body = p.body ∧ q.detached = p.detached := by
  induction h with
  | refl => exact ⟨rfl, rfl⟩
  | tail _ hedit ih =>
      cases hedit with
      | create parent i op hop => exact absurd hop (creates _ parent op)
      | change id f => exact ih
      | erase id hid hop => exact absurd hop (erases _ id)

/-- An operation stays the same when no edit changes it as long as it is. -/
theorem Edits.sameHeader_of (hp : p.Sound) (h : p.Edits rule q) (hid : id < p.slots.size)
    (changes : ∀ r op, rule.changes r id op → (p.op id).SameHeader (r.op id) →
      (p.op id).SameHeader op) : (p.op id).SameHeader (q.op id) :=
  h.forall_op (K := fun i op => i = id → (p.op id).SameHeader op) hp
    (fun _ _ _ hab hK hi => (hK hi).trans hab)
    (fun _ _ _ hr _ _ hi => absurd (hi ▸ hid) (Nat.not_lt.2 (hr.size_le hp)))
    (fun r i op _ hop hK hi => by
      subst hi
      exact changes r op hop (hK rfl))
    (fun _ _ hi => hi ▸ .refl _) id (Nat.lt_of_lt_of_le hid (h.size_le hp)) rfl

/-- Operations stay the same when edits change none. -/
theorem Edits.sameHeader (hp : p.Sound) (h : p.Edits rule q)
    (changes : ∀ p id op, ¬ rule.changes p id op) (hid : id < p.slots.size) :
    (p.op id).SameHeader (q.op id) :=
  h.sameHeader_of hp hid fun r op hop => absurd hop (changes r id op)

/-- An operation of a kind whose operands no edit changes keeps them. -/
theorem Edits.operands_eq {P : Operation → Prop} (hp : p.Sound) (h : p.Edits rule q)
    (header : ∀ a b : Operation, a.SameHeader b → P a → P b)
    (changes : ∀ r id op, rule.changes r id op → P (r.op id) →
      P op ∧ op.operands = (r.op id).operands)
    (hlt : id < p.slots.size) (hP : P (p.op id)) :
    P (q.op id) ∧ (q.op id).operands = (p.op id).operands :=
  h.forall_op (K := fun id op => id < p.slots.size → P (p.op id) →
      P op ∧ op.operands = (p.op id).operands) hp
    (fun _ a b hab hK hlt hP =>
      ⟨header a b hab (hK hlt hP).1, hab.operands.trans (hK hlt hP).2⟩)
    (fun _ _ _ hr _ _ hlt => absurd hlt (Nat.not_lt.2 (hr.size_le hp)))
    (fun r id op _ hop hK hlt hP => by
      obtain ⟨hPr, hoperands⟩ := hK hlt hP
      obtain ⟨hPop, hsame⟩ := changes r id op hop hPr
      exact ⟨hPop, hsame.trans hoperands⟩)
    (fun _ _ _ hP => ⟨hP, rfl⟩) id (Nat.lt_of_lt_of_le hlt (h.size_le hp)) hlt hP

/-- Without erasures, nothing of the body is lost. -/
theorem Edits.mem_walk (erases : ∀ p id, ¬ rule.erases p id) (hp : p.Sound) (h : p.Edits rule q)
    (hid : id ∈ p.walk) : id ∈ q.walk := by
  induction h with
  | refl => exact hid
  | tail hr hedit ih =>
      cases hedit with
      | create parent i op =>
          exact ((created_insertAt (Edits.sound hr hp) parent i op).walk id).2 (.inl ih)
      | change => exact ih
      | erase x hx hop => exact absurd hop (erases _ x)

/-- What is gone stays gone. -/
theorem Edits.notMem_walk (h : p.Edits rule q) (hp : p.Sound) (hlt : id < p.slots.size)
    (hid : id ∉ p.walk) : id ∉ q.walk :=
  fun hmem => hid ((h.evolves hp).walk id hmem hlt)

/-! ### Devices -/

end Program

/-- Whether edits under a rule create, change and erase nothing that is a device. -/
structure EditRule.SparesDevices (rule : EditRule) : Prop where
  creates : ∀ p parent op, rule.creates p parent op → op.is "aie.device" = false
  changes : ∀ p id op, rule.changes p id op → op.is "aie.device" = (p.op id).is "aie.device"
  erases : ∀ p id, rule.erases p id → (p.op id).is "aie.device" = false

namespace Program

variable {rule rule' : EditRule} {p q r s : Program} {id device : OpId}

/-- A device is an operation at the top with the name of devices. -/
theorem mem_devices : id ∈ p.devices ↔ id ∈ p.body.roots ∧ (p.op id).is "aie.device" = true :=
  List.mem_filter

/-- An edit by a rule that spares devices leaves the devices. -/
theorem Edit.mem_devices (hrule : rule.SparesDevices) (hp : p.Sound) (h : p.Edit rule q) :
    id ∈ q.devices ↔ id ∈ p.devices := by
  have hcreated : id ∈ p.body.roots → id < p.slots.size := fun hroot =>
    hp.created id (mem_walk_of_mem_roots hroot)
  rw [Program.mem_devices, Program.mem_devices]
  cases h with
  | create parent i op hop =>
      have hnew := created_insertAt hp parent i op
      have hfresh : ((p.insertAt parent i op).2.op p.slots.size).is "aie.device" = false := by
        rw [hnew.header.is, hrule.creates p parent op hop]
      rw [hnew.roots]
      constructor
      · rintro ⟨hroot | ⟨-, rfl⟩, hname⟩
        · exact ⟨hroot, by rwa [(hnew.old id (hcreated hroot)).is] at hname⟩
        · rw [hfresh] at hname
          cases hname
      · rintro ⟨hroot, hname⟩
        exact ⟨.inl hroot, by rwa [(hnew.old id (hcreated hroot)).is]⟩
  | change j f hj hop =>
      rw [body_modify]
      by_cases hidj : id = j
      · subst hidj
        rw [op_modify_self hj, hrule.changes p id _ hop]
      · rw [op_modify_of_ne hidj]
  | erase x hx hop =>
      rw [(cut_erase hp hx).roots, op_erase]
      refine ⟨fun h => ⟨h.1.1, h.2⟩, fun h => ⟨⟨h.1, ?_⟩, h.2⟩⟩
      rintro rfl
      rw [hrule.erases p id hop] at h
      cases h.2

/-- Edits by a rule that spares devices leave the devices. -/
theorem Edits.mem_devices (hrule : rule.SparesDevices) (hp : p.Sound) (h : p.Edits rule q) :
    id ∈ q.devices ↔ id ∈ p.devices := by
  induction h with
  | refl => rfl
  | tail hr hedit ih => rw [hedit.mem_devices hrule (Edits.sound hr hp), ih]

/-! ### Values -/

/-- Operations of the body that keep their results define no value twice. -/
theorem nodup_of_results (hp : p.definedValues.Nodup) (hq : q.WellFormed)
    (h : ∀ id ∈ q.walk, id ∈ p.walk ∧ (q.op id).result = (p.op id).result) :
    q.definedValues.Nodup := by
  refine nodup_definedValues hq fun i hi j hj v hri hrj => ?_
  obtain ⟨hip, hi'⟩ := h i hi
  obtain ⟨hjp, hj'⟩ := h j hj
  exact eq_of_result hp hip hjp (hi' ▸ hri) (hj' ▸ hrj)

/-- A creation within the body adds the result of the new operation to the values. -/
theorem Created.mem_definedValues_iff {parent : Option OpId} {op : Operation} {v : String}
    (h : p.Created parent op q) (hp : p.Sound) (hholds : p.Holds parent) :
    v ∈ q.definedValues ↔ v ∈ p.definedValues ∨ op.result = some v := by
  have hold : ∀ i ∈ p.walk, (q.op i).result = (p.op i).result := fun i hi =>
    (h.old i (hp.created i hi)).result
  rw [Program.mem_definedValues, Program.mem_definedValues]
  constructor
  · rintro ⟨i, hi, hv⟩
    rcases (h.walk i).1 hi with hi | ⟨rfl, -⟩
    · exact .inl ⟨i, hi, hold i hi ▸ hv⟩
    · exact .inr (h.header.result ▸ hv)
  · rintro (⟨i, hi, hv⟩ | hv)
    · exact ⟨i, (h.walk i).2 (.inl hi), (hold i hi).trans hv⟩
    · exact ⟨_, (h.walk _).2 (.inr ⟨rfl, hholds⟩), h.header.result.trans hv⟩

/-- An operation that defines a value which the body does not define yet. -/
theorem Created.nodup {parent : Option OpId} {op : Operation} (h : p.Created parent op q)
    (hp : p.Sound) (hvalues : p.definedValues.Nodup)
    (hfresh : ∀ v, op.result = some v → v ∉ p.definedValues) : q.definedValues.Nodup := by
  have hold : ∀ i ∈ p.walk, (q.op i).result = (p.op i).result := fun i hi =>
    (h.old i (hp.created i hi)).result
  have hclash : ∀ i ∈ p.walk, ∀ v, (q.op i).result = some v →
      (q.op p.slots.size).result ≠ some v := fun i hi v hri hrn => by
    rw [h.header.result] at hrn
    rw [hold i hi] at hri
    exact hfresh v hrn (mem_definedValues.2 ⟨i, hi, hri⟩)
  refine nodup_definedValues h.sound.toWellFormed fun i hi j hj v hri hrj => ?_
  rcases (h.walk i).1 hi with hi | ⟨rfl, -⟩ <;> rcases (h.walk j).1 hj with hj | ⟨rfl, -⟩
  · rw [hold i hi] at hri
    rw [hold j hj] at hrj
    exact eq_of_result hvalues hi hj hri hrj
  · exact absurd hrj (hclash i hi v hri)
  · exact absurd hri (hclash j hj v hrj)
  · rfl

/-- An edit by a rule keeps values from being defined twice. -/
theorem Edit.nodup (hp : p.Sound) (hvalues : p.definedValues.Nodup) (h : p.Edit rule q) :
    q.definedValues.Nodup := by
  cases h with
  | create parent i op _ hfresh => exact (created_insertAt hp parent i op).nodup hp hvalues hfresh
  | change j f hj _ hresult =>
      refine nodup_of_results hvalues (hp.modify j f).toWellFormed fun id hid => ⟨hid, ?_⟩
      by_cases hidj : id = j
      · subst hidj
        rw [op_modify_self hj, hresult]
      · rw [op_modify_of_ne hidj]
  | erase x hx =>
      have hcut := cut_erase hp hx
      exact nodup_of_results hvalues hcut.sound.toWellFormed fun id hid =>
        ⟨((hcut.walk id).1 hid).1, by rw [hcut.op]⟩

/-- Values are defined at most once, if they were. -/
theorem Edits.nodup (hp : p.Sound) (hvalues : p.definedValues.Nodup) (h : p.Edits rule q) :
    q.definedValues.Nodup := by
  induction h with
  | refl => exact hvalues
  | tail hr hedit ih => exact hedit.nodup (Edits.sound hr hp) ih

end Program

/-- An operation with the same header names the same place. -/
theorem Operation.SameHeader.keepsPlace {a b : Operation} (h : a.SameHeader b) :
    Program.KeepsPlace b a := by
  have htile : b.tile? = a.tile? := by
    rw [Operation.tile?, Operation.operandInt?, Operation.operandInt?, h.operands]
    rfl
  refine ⟨h.result.symm, (h.is _).symm, fun _ => htile.symm, fun v hv => ?_⟩
  rw [Operation.operandValue?, h.operands]
  exact hv

namespace Program

variable {rule rule' : EditRule} {p q r s : Program} {id device : OpId}

/-- An operation of before keeps what matters for placements. -/
theorem Edits.keepsPlace (hp : p.Sound) (h : p.Edits rule q)
    (changes : ∀ r id op, rule.changes r id op → KeepsPlace op (r.op id))
    (hlt : id < p.slots.size) : KeepsPlace (q.op id) (p.op id) :=
  h.forall_op (K := fun id op => id < p.slots.size → KeepsPlace op (p.op id)) hp
    (fun _ _ _ hab hK hlt => hab.keepsPlace.trans (hK hlt))
    (fun _ _ _ hr _ _ hlt => absurd hlt (Nat.not_lt.2 (hr.size_le hp)))
    (fun r id op _ hop hK hlt => (changes r id op hop).trans (hK hlt))
    (fun _ _ _ => .refl _) id (Nat.lt_of_lt_of_le hlt (h.size_le hp)) hlt

/-- The values of before are still defined by the operations that defined them, if no edit erases
one of these. -/
theorem Edits.resolves (hp : p.Sound) (h : p.Edits rule q)
    (changes : ∀ r id op, rule.changes r id op → KeepsPlace op (r.op id))
    (erases : ∀ r x, p.Edits rule r → rule.erases r x → ∀ id ∈ r.walk, id < p.slots.size →
      (id = x ∨ id ∈ r.walkIn x) → (p.op id).result = none) : q.Resolves p := by
  have hwalk : ∀ id ∈ p.walk, (p.op id).result ≠ none → id ∈ q.walk := by
    induction h with
    | refl => exact fun id hid _ => hid
    | @tail r q hr hedit ih =>
        intro id hid hresult
        have hidr := ih id hid hresult
        have hsound := Edits.sound hr hp
        cases hedit with
        | create parent i op => exact ((created_insertAt hsound parent i op).walk id).2 (.inl hidr)
        | change => exact hidr
        | erase x hx hop =>
            refine ((cut_erase hsound hx).walk id).2 ⟨hidr, ?_⟩
            rw [← not_or]
            exact fun hmem => hresult (erases r x hr hop id hidr (hp.created id hid) hmem)
  exact fun id hid hresult =>
    ⟨hwalk id hid hresult, h.keepsPlace hp changes (hp.created id hid)⟩

/-- The values of after were defined by the operations that define them, if no edit creates one that
does. -/
theorem Edits.resolved (hp : p.Sound) (h : p.Edits rule q)
    (creates : ∀ p parent op, rule.creates p parent op → op.result = none)
    (changes : ∀ r id op, rule.changes r id op → KeepsPlace (r.op id) op) : p.Resolves q := by
  have hops : ∀ id < q.slots.size, (q.op id).result ≠ none →
      id < p.slots.size ∧ KeepsPlace (p.op id) (q.op id) :=
    h.forall_op (K := fun id op => op.result ≠ none → id < p.slots.size ∧ KeepsPlace (p.op id) op)
      hp
      (fun _ a b hab hK hb =>
        have ha := hK (hab.result ▸ hb)
        ⟨ha.1, ha.2.trans hab.symm.keepsPlace⟩)
      (fun r parent op _ _ hop hresult => absurd (creates r parent op hop) hresult)
      (fun r id op _ hop hK hresult =>
        have hr := hK ((changes r id op hop).result ▸ hresult)
        ⟨hr.1, hr.2.trans (changes r id op hop)⟩)
      fun id hid _ => ⟨hid, .refl _⟩
  have hev := h.evolves hp
  intro id hid hresult
  obtain ⟨hlt, hkeep⟩ := hops id (hev.sound.created id hid) hresult
  exact ⟨hev.walk id hid hlt, hkeep⟩

/-! ### Rules -/

/-- Edits that a rule allows are allowed by a rule that allows more. -/
theorem Edits.mono (h : p.Edits rule q)
    (creates : ∀ p parent op, rule.creates p parent op → rule'.creates p parent op)
    (changes : ∀ p id op, rule.changes p id op → rule'.changes p id op)
    (erases : ∀ p id, rule.erases p id → rule'.erases p id) : p.Edits rule' q := by
  refine Relation.ReflTransGen.mono (fun r s hedit => ?_) p q h
  cases hedit with
  | create parent i op hop hfresh => exact .create parent i op (creates r parent op hop) hfresh
  | change id f hid hop hresult => exact .change id f hid (changes r id _ hop) hresult
  | erase id hid hop => exact .erase id hid (erases r id hop)

end Program

namespace EditRule

/-- The edits that one of several rules allows. -/
def any (rules : List EditRule) : EditRule where
  creates p parent op := ∃ rule ∈ rules, rule.creates p parent op
  changes p id op := ∃ rule ∈ rules, rule.changes p id op
  erases p id := ∃ rule ∈ rules, rule.erases p id

/-- A rule under which no operation with a name is created. -/
def without (rule : EditRule) (name : String) : EditRule :=
  { rule with creates := fun p parent op => rule.creates p parent op ∧ op.is name = false }

variable {rules : List EditRule} {K : Operation → Prop}

/-- A property that each of several rules keeps is kept by all of them together. -/
theorem any_keeps (header : ∀ a b : Operation, a.SameHeader b → K a → K b)
    (h : ∀ rule ∈ rules, rule.Keeps K) : (any rules).Keeps K where
  header := header
  creates p parent op := fun ⟨rule, hrule, hop⟩ => (h rule hrule).creates p parent op hop
  changes p id op := fun ⟨rule, hrule, hop⟩ => (h rule hrule).changes p id op hop

/-- Rules that each spare devices spare them together. -/
theorem any_sparesDevices (h : ∀ rule ∈ rules, rule.SparesDevices) : (any rules).SparesDevices where
  creates p parent op := fun ⟨rule, hrule, hop⟩ => (h rule hrule).creates p parent op hop
  changes p id op := fun ⟨rule, hrule, hop⟩ => (h rule hrule).changes p id op hop
  erases p id := fun ⟨rule, hrule, hop⟩ => (h rule hrule).erases p id hop

end EditRule

/-- An edit creates an operation with a name, or does without. -/
theorem Program.Edit.without_or {rule : EditRule} {p q : Program} (h : p.Edit rule q) (hp : p.Sound)
    (name : String) : p.Edit (rule.without name) q ∨
      ∃ parent op, rule.creates p parent op ∧ op.is name = true ∧ p.Created parent op q := by
  cases h with
  | create parent i op hop hfresh =>
      rcases hname : op.is name with _ | _
      · exact .inl (.create parent i op ⟨hop, hname⟩ hfresh)
      · exact .inr ⟨parent, op, hop, hname, created_insertAt hp parent i op⟩
  | change id f hid hop hresult => exact .inl (.change id f hid hop hresult)
  | erase id hid hop => exact .inl (.erase id hid hop)

/-- Edits by one of several rules are edits by all of them together. -/
theorem Program.Edits.any {rule : EditRule} {rules : List EditRule} {p q : Program}
    (h : p.Edits rule q) (hrule : rule ∈ rules) : p.Edits (.any rules) q :=
  h.mono (fun _ _ _ hop => ⟨rule, hrule, hop⟩) (fun _ _ _ hop => ⟨rule, hrule, hop⟩)
    fun _ _ hop => ⟨rule, hrule, hop⟩

end TileFlow
