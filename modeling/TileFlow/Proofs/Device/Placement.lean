import TileFlow.Device.Placement
import TileFlow.Proofs.Program.Edit
import TileFlow.Proofs.Program.Sound

/-!
# Placement under edits

Where an operation sits is found through the values that name tiles. When values are defined at
most once, an edit that keeps the operations which define values, or at least what matters of them
for the placement, keeps every placement that it does not make undefined.

A stage that fills in operands or attributes leaves the forest of a program, and all operations but
those that it fills in, as they are. Where the operations that are filled in keep their names,
results and places, everything is found and placed as before.

## Main definitions

* `Program.SameBut`: two programs that differ in nothing but some operations.
* `Operation.SamePlace`: an operation that is found, and places others, as before.

## Main results

* `Program.definingOp?_eq_some_iff`: the operation that defines a value.
* `Program.Resolves`: a program whose values are those of another one.
* `Program.placeOf?`: the tile that a value places operations on.
* `Program.ResolvesValue`: one value that is defined as in another program.
* `Program.Resolves.tileOf?`, `Program.Resolves.placeOf?`, `Program.Resolves.owningTile?`:
  placements carry over.
* `Program.SameBut.findIn`: operations are found as before.
* `Program.SameBut.owningTile?`: operations are placed as before.
-/

/-! ## Placement by values -/

namespace TileFlow

/-- Elements of a list with the same image are the same, if the images are all different. -/
theorem eq_of_nodup_filterMap {α β : Type} {f : α → Option β} {l : List α}
    (h : (l.filterMap f).Nodup) {a b : α} (ha : a ∈ l) (hb : b ∈ l) {c : β} (hac : f a = some c)
    (hbc : f b = some c) : a = b := by
  induction l with
  | nil => cases ha
  | cons x l ih =>
      have hmem : ∀ y ∈ l, f y = some c → c ∈ l.filterMap f := fun y hy hyc =>
        List.mem_filterMap.2 ⟨y, hy, hyc⟩
      have htail : (l.filterMap f).Nodup := by
        rw [List.filterMap_cons] at h
        split at h
        · exact h
        · exact (List.nodup_cons.1 h).2
      rcases List.mem_cons.1 ha with hax | hal <;> rcases List.mem_cons.1 hb with hbx | hbl
      · exact hax.trans hbx.symm
      · rw [List.filterMap_cons, ← hax, hac] at h
        exact absurd (hmem b hbl hbc) (List.nodup_cons.1 h).1
      · rw [List.filterMap_cons, ← hbx, hbc] at h
        exact absurd (hmem a hal hac) (List.nodup_cons.1 h).1
      · exact ih htail hal hbl

end TileFlow

namespace TileFlow.Program

variable {p q r : Program} {id : OpId} {v : String}

/-- The operation that defines a value is met and has it as its result. -/
theorem mem_walk_of_definingOp? (h : p.definingOp? v = some id) :
    id ∈ p.walk ∧ (p.op id).result = some v := by
  refine ⟨List.mem_of_find?_eq_some h, ?_⟩
  simpa using List.find?_some h

/-- Operations of the body that define the same value are the same. -/
theorem eq_of_result (h : p.definedValues.Nodup) {i j : OpId} (hi : i ∈ p.walk) (hj : j ∈ p.walk)
    (hri : (p.op i).result = some v) (hrj : (p.op j).result = some v) : i = j :=
  eq_of_nodup_filterMap h hi hj hri hrj

/-- When no two operations share a result, the list of the defined values has no repetition. -/
theorem nodup_definedValues (hp : p.WellFormed) (h : ∀ i ∈ p.walk, ∀ j ∈ p.walk, ∀ v,
    (p.op i).result = some v → (p.op j).result = some v → i = j) : p.definedValues.Nodup := by
  rw [definedValues]
  have hwalk : p.walk.Nodup := hp.distinct
  refine List.Pairwise.filterMap _ ?_ (List.Pairwise.and_mem.1 hwalk)
  rintro i j ⟨hi, hj, hij⟩ v hv w hw rfl
  exact hij (h i hi j hj v hv hw)

/-- The defined values are the results of the operations that are met. -/
theorem mem_definedValues : v ∈ p.definedValues ↔ ∃ id ∈ p.walk, (p.op id).result = some v :=
  List.mem_filterMap

/-- When values are defined at most once, a value is defined by any operation that defines it. -/
theorem definingOp?_eq_some_iff (h : p.definedValues.Nodup) :
    p.definingOp? v = some id ↔ id ∈ p.walk ∧ (p.op id).result = some v := by
  refine ⟨mem_walk_of_definingOp?, fun ⟨hid, hr⟩ => ?_⟩
  rcases hfind : p.definingOp? v with _ | j
  · rw [definingOp?, List.find?_eq_none] at hfind
    exact absurd hr (by simpa using hfind id hid)
  · obtain ⟨hj, hrj⟩ := mem_walk_of_definingOp? hfind
    rw [eq_of_result h hid hj hr hrj]

/-- A value names the tile of the operation that defines it, if that one is a tile. -/
theorem tileOf?_eq_some {t : Tile} : p.tileOf? v = some t ↔ ∃ id, p.definingOp? v = some id ∧
    (p.op id).is "aie.tile" = true ∧ (p.op id).tile? = some t := by
  rw [tileOf?]
  cases p.definingOp? v with
  | none => simp
  | some id => simp

/-- What an operation keeps of another one for the placement of further operations. -/
structure KeepsPlace (a b : Operation) : Prop where
  result : b.result = a.result
  isTile : b.is "aie.tile" = a.is "aie.tile"
  tile : b.is "aie.tile" = true → b.tile? = a.tile?
  operand : ∀ v, b.operandValue? 0 = some v → a.operandValue? 0 = some v

/-- An operation keeps its own place. -/
theorem KeepsPlace.refl (a : Operation) : KeepsPlace a a :=
  ⟨rfl, rfl, fun _ => rfl, fun _ h => h⟩

/-- Keeping the place is transitive. -/
theorem KeepsPlace.trans {a b c : Operation} (h : KeepsPlace a b) (h' : KeepsPlace b c) :
    KeepsPlace a c where
  result := h'.result.trans h.result
  isTile := h'.isTile.trans h.isTile
  tile ht := (h'.tile ht).trans (h.tile (h'.isTile ▸ ht))
  operand v hv := h.operand v (h'.operand v hv)

/-- Whether every operation that defines a value is one of another program, and keeps what matters
for placements. -/
def Resolves (p q : Program) : Prop :=
  ∀ id ∈ q.walk, (q.op id).result ≠ none → id ∈ p.walk ∧ KeepsPlace (p.op id) (q.op id)

/-- A program resolves its own values. -/
theorem Resolves.refl (p : Program) : p.Resolves p :=
  fun _ hid _ => ⟨hid, .refl _⟩

/-- Resolving values as before is transitive. -/
theorem Resolves.trans (h : p.Resolves q) (h' : q.Resolves r) : p.Resolves r := by
  intro id hid hres
  obtain ⟨hidq, hkeep⟩ := h' id hid hres
  obtain ⟨hidp, hkeep'⟩ := h id hidq (hkeep.result ▸ hres)
  exact ⟨hidp, hkeep'.trans hkeep⟩

/-- Where no value is defined twice, a value is still defined by the same operation. -/
theorem Resolves.definingOp? (h : p.Resolves q) (hp : p.definedValues.Nodup)
    (hv : q.definingOp? v = some id) :
    p.definingOp? v = some id ∧ KeepsPlace (p.op id) (q.op id) := by
  obtain ⟨hid, hr⟩ := mem_walk_of_definingOp? hv
  obtain ⟨hidp, hkeep⟩ := h id hid (by simp [hr])
  exact ⟨(definingOp?_eq_some_iff hp).2 ⟨hidp, hkeep.result ▸ hr⟩, hkeep⟩

/-- A program whose values are those of another one defines none twice either. -/
theorem Resolves.nodup (h : p.Resolves q) (hp : p.definedValues.Nodup) (hq : q.WellFormed) :
    q.definedValues.Nodup := by
  refine nodup_definedValues hq fun i hi j hj v hri hrj => ?_
  obtain ⟨hip, hki⟩ := h i hi (by simp [hri])
  obtain ⟨hjp, hkj⟩ := h j hj (by simp [hrj])
  exact eq_of_result hp hip hjp (hki.result ▸ hri) (hkj.result ▸ hrj)

/-- Whether the operation that defines a value in another program defines it here, too, and keeps
what matters for placements. -/
def ResolvesValue (p q : Program) (v : String) : Prop :=
  ∀ id, q.definingOp? v = some id → p.definingOp? v = some id ∧ KeepsPlace (p.op id) (q.op id)

/-- Where no value is defined twice, each one is resolved as before. -/
theorem Resolves.value (h : p.Resolves q) (hp : p.definedValues.Nodup) (v : String) :
    p.ResolvesValue q v := fun _ hid => h.definingOp? hp hid

/-- A value that is resolved and names a tile in the other program names the same one here. -/
theorem ResolvesValue.tileOf? (h : p.ResolvesValue q v) {t : Tile} (ht : q.tileOf? v = some t) :
    p.tileOf? v = some t := by
  obtain ⟨id, hid, htile, ht⟩ := tileOf?_eq_some.1 ht
  obtain ⟨hidp, hkeep⟩ := h id hid
  exact tileOf?_eq_some.2 ⟨id, hidp, hkeep.isTile ▸ htile, (hkeep.tile htile).symm.trans ht⟩

/-- A value that names a tile names the same one in the program before. -/
theorem Resolves.tileOf? (h : p.Resolves q) (hp : p.definedValues.Nodup) {t : Tile}
    (ht : q.tileOf? v = some t) : p.tileOf? v = some t :=
  (h.value hp v).tileOf? ht

/-- The tile that a value places an operation on: the one that it names, or the one of the operation
that defines it. -/
def placeOf? (p : Program) (value : String) : Option Tile :=
  (p.definingOp? value).bind fun id =>
    if (p.op id).is "aie.tile" then (p.op id).tile? else ((p.op id).operandValue? 0).bind p.tileOf?

/-- The tile that owns an operation is the place its first operand names. -/
theorem owningTile?_eq (p : Program) (id : OpId) :
    p.owningTile? id = ((p.op id).operandValue? 0).bind p.placeOf? := by
  rw [owningTile?]
  cases (p.op id).operandValue? 0 with
  | none => rfl
  | some v =>
      dsimp only
      rw [Option.bind_some, placeOf?]
      cases p.definingOp? v <;> rfl

/-- A value that names a tile places operations on it. -/
theorem placeOf?_of_tileOf? {t : Tile} (h : p.tileOf? v = some t) : p.placeOf? v = some t := by
  obtain ⟨id, hid, htile, ht⟩ := tileOf?_eq_some.1 h
  rw [placeOf?, hid, Option.bind_some, if_pos htile, ht]

/-- A value that is resolved and places operations on a tile places them on the same one here, if
all values that name tiles name the same ones. -/
theorem ResolvesValue.placeOf? (h : p.ResolvesValue q v)
    (htiles : ∀ w t, q.tileOf? w = some t → p.tileOf? w = some t) {t : Tile}
    (ht : q.placeOf? v = some t) : p.placeOf? v = some t := by
  obtain ⟨d, hd, ht⟩ := Option.bind_eq_some_iff.1 ht
  obtain ⟨hdp, hkeep⟩ := h d hd
  rw [Program.placeOf?, hdp, Option.bind_some]
  split at ht
  · rename_i htile
    rw [← hkeep.isTile, if_pos htile, ← hkeep.tile htile, ht]
  · rename_i htile
    rw [← hkeep.isTile, if_neg htile]
    obtain ⟨w, hw, htw⟩ := Option.bind_eq_some_iff.1 ht
    rw [hkeep.operand w hw, Option.bind_some, htiles w t htw]

/-- A value that places operations on a tile places them on the same one in the program before. -/
theorem Resolves.placeOf? (h : p.Resolves q) (hp : p.definedValues.Nodup) {t : Tile}
    (ht : q.placeOf? v = some t) : p.placeOf? v = some t :=
  (h.value hp v).placeOf? (fun _ _ => h.tileOf? hp) ht

/-- An operation that sits on a tile sits on the same one in the program before, if it is the same
operation there. -/
theorem Resolves.owningTile? (h : p.Resolves q) (hp : p.definedValues.Nodup) {t : Tile}
    (hop : q.op id = p.op id) (ht : q.owningTile? id = some t) : p.owningTile? id = some t := by
  rw [owningTile?_eq, hop] at ht
  obtain ⟨v, hv, ht⟩ := Option.bind_eq_some_iff.1 ht
  rw [owningTile?_eq, hv, Option.bind_some, h.placeOf? hp ht]

end TileFlow.Program

/-! ## Programs that differ in some operations only -/

namespace TileFlow

/-- An operation that still has its name, its result and its first operand, and the coordinates that
it gives if it is a tile. -/
structure Operation.SamePlace (a b : Operation) : Prop where
  name : b.name = a.name
  result : b.result = a.result
  first : b.operands[0]? = a.operands[0]?
  tile : a.is "aie.tile" = true → b.tile? = a.tile?

/-- An operation stands at its own place. -/
theorem Operation.SamePlace.refl (a : Operation) : a.SamePlace a :=
  ⟨rfl, rfl, rfl, fun _ => rfl⟩

/-- Operations at the same place have one name. -/
theorem Operation.SamePlace.is {a b : Operation} (h : a.SamePlace b) (name : String) :
    b.is name = a.is name := by
  rw [Operation.is, h.name, Operation.is]

/-- Operations at the same place name one value first. -/
theorem Operation.SamePlace.operand {a b : Operation} (h : a.SamePlace b) :
    b.operandValue? 0 = a.operandValue? 0 := by
  rw [operandValue?, h.first, operandValue?]

namespace Program

variable {p q r : Program} {S S' : OpId → Prop} {id : OpId}

/-- Two programs that differ in nothing but some operations. -/
structure SameBut (S : OpId → Prop) (p q : Program) : Prop where
  body : q.body = p.body
  detached : q.detached = p.detached
  attributes : q.attributes = p.attributes
  size : q.slots.size = p.slots.size
  live : ∀ id, q.isLive id = p.isLive id
  op : ∀ id, ¬S id → q.op id = p.op id

namespace SameBut

/-- A program agrees with itself. -/
theorem refl (p : Program) : p.SameBut S p :=
  ⟨rfl, rfl, rfl, rfl, fun _ => rfl, fun _ _ => rfl⟩

/-- Programs that differ in few operations differ in no more than many. -/
theorem mono (h : p.SameBut S q) (hS : ∀ id, S id → S' id) : p.SameBut S' q where
  body := h.body
  detached := h.detached
  attributes := h.attributes
  size := h.size
  live := h.live
  op id hid := h.op id fun hold => hid (hS id hold)

/-- Agreeing but for some operations is transitive. -/
theorem trans (h : p.SameBut S q) (h' : q.SameBut S r) : p.SameBut S r where
  body := h'.body.trans h.body
  detached := h'.detached.trans h.detached
  attributes := h'.attributes.trans h.attributes
  size := h'.size.trans h.size
  live id := (h'.live id).trans (h.live id)
  op id hid := (h'.op id hid).trans (h.op id hid)

/-- Changing an operation that may differ. -/
theorem modify (hid : S id) (f : Operation → Operation) : p.SameBut S (p.modify id f) where
  body := rfl
  detached := rfl
  attributes := rfl
  size := size_modify p id f
  live j := isLive_modify id j f
  op j hj := by
    have hne : j ≠ id := by
      rintro rfl
      exact hj hid
    exact op_modify_of_ne hne f

/-- The walk is the same. -/
theorem walk (h : p.SameBut S q) : q.walk = p.walk := by
  rw [Program.walk, h.body, Program.walk]

/-- The walk below an operation is the same. -/
theorem walkIn (h : p.SameBut S q) (a : OpId) : q.walkIn a = p.walkIn a := by
  rw [Program.walkIn, Program.below, h.body, h.detached, Program.walkIn, Program.below]

section Places

variable (h : p.SameBut S q) (hS : ∀ id, S id → (p.op id).SamePlace (q.op id))
include h hS

/-- Operations that are not filled in have their places, too. -/
theorem samePlace (id : OpId) : (p.op id).SamePlace (q.op id) := by
  by_cases hid : S id
  · exact hS id hid
  · rw [h.op id hid]
    exact .refl _

/-- The operations of a name below an operation are the same. -/
theorem findIn (a : OpId) (name : String) : q.findIn a name = p.findIn a name := by
  simp only [Program.findIn, h.walkIn, fun id => (h.samePlace hS id).is name]

/-- Every value is defined by the same operation. -/
theorem definingOp? (v : String) : q.definingOp? v = p.definingOp? v := by
  simp only [Program.definingOp?, h.walk, fun id => (h.samePlace hS id).result]

/-- Every value denotes the same tile. -/
theorem tileOf? (v : String) : q.tileOf? v = p.tileOf? v := by
  rw [Program.tileOf?, Program.tileOf?, h.definingOp? hS]
  rcases p.definingOp? v with _ | id
  · rfl
  · dsimp only
    rw [(h.samePlace hS id).is]
    split
    · rename_i htile
      exact (h.samePlace hS id).tile htile
    · rfl

/-- Every value denotes the same place. -/
theorem placeOf? (v : String) : q.placeOf? v = p.placeOf? v := by
  rw [Program.placeOf?, Program.placeOf?, h.definingOp? hS]
  rcases p.definingOp? v with _ | id
  · rfl
  · dsimp only [Option.bind_some]
    rw [(h.samePlace hS id).is, (h.samePlace hS id).operand, funext (h.tileOf? hS)]
    split
    · rename_i htile
      exact (h.samePlace hS id).tile htile
    · rfl

/-- Operations sit where they sat. -/
theorem owningTile? (id : OpId) : q.owningTile? id = p.owningTile? id := by
  rw [owningTile?_eq, owningTile?_eq, (h.samePlace hS id).operand, funext (h.placeOf? hS)]

/-- The model of a device is the same. -/
theorem modelOf (device : OpId) : q.modelOf device = p.modelOf device := by
  rw [Program.modelOf, Operation.operandText?, (h.samePlace hS device).first, Program.modelOf,
    Operation.operandText?]

end Places

end SameBut

end Program

end TileFlow
