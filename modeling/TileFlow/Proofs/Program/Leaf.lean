import TileFlow.Proofs.Program.Edit

/-!
# Operations that come and go

What a program looks like from any of its operations when one without operations below it is
created, or erased. A leaf of a forest that is put below a label, or taken away, changes what is
below the labels above it by that leaf and leaves what is below all others.

## Main results

* `Forest.below?_insertLeaf`, `Forest.below?_newLeaf`: a leaf put below a label.
* `Forest.below?_removeLeaf`: a leaf taken away.
* `Program.adds_insertAt`: an operation that is created below another one.
* `Program.drops_erase`: an operation that is erased, when none is below it.
-/

namespace TileFlow.Forest

/-! ### Leaves of forests -/

variable {α : Type} [DecidableEq α] {f g h : Forest α} {a b x : α}

omit [DecidableEq α] in
/-- A root after an insertion is the new one or one of the old. -/
theorem mem_roots_insertAt {c : Forest α} {i : Nat} {y : α} :
    y ∈ (f.insertAt i a c).roots ↔ y = a ∨ y ∈ f.roots := by
  simp only [mem_roots, mem_trees_insertAt, Prod.mk.injEq]
  constructor
  · rintro ⟨d, ⟨rfl, -⟩ | hd⟩
    · exact .inl rfl
    · exact .inr ⟨d, hd⟩
  · rintro (rfl | ⟨d, hd⟩)
    · exact ⟨c, .inl ⟨rfl, rfl⟩⟩
    · exact ⟨d, .inr hd⟩

/-- What is below a label that is below another one, or apart from it, when a leaf is put below the
other. -/
theorem below?_insertLeaf_of_notMem (hf : f.Distinct) (ha : f.below? a = some g)
    (hb : f.below? b = some h) (hx : x ∉ f.preorder) (hba : b ≠ a)
    (hah : a ∉ h.preorder) (i : Nat) :
    (f.update a (·.insertAt i x nil)).below? b = some h := by
  have hbx : b ≠ x := by
    rintro rfl
    exact hx (mem_preorder_of_below? hb)
  by_cases hbg : b ∈ g.preorder
  · have hgb : g.below? b = some h := by
      obtain ⟨k, hk⟩ := mem_preorder_iff.1 hbg
      rw [hk, ← hb, below?_trans hf ha hk]
    have hins : (g.insertAt i x nil).below? b = some h := by
      rw [below?_insertAt hbx (by simp), hgb]
    exact below?_trans (hf.update_insertAt ha hx i) (below?_update_self ha _) hins
  · rw [below?_update hf hba hb, update_eq_self hah]
    intro g' hg'
    rw [ha] at hg'
    cases hg'
    exact ⟨hbg, by simp [mem_preorder_insertAt, hbx, hbg]⟩

/-- What is below a label above another one when a leaf is put below the other. -/
theorem below?_insertLeaf_of_mem (hf : f.Distinct) (hb : f.below? b = some h) (hx : x ∉ f.preorder)
    (hah : a ∈ h.preorder) (i : Nat) :
    (f.update a (·.insertAt i x nil)).below? b = some (h.update a (·.insertAt i x nil)) := by
  obtain ⟨hh, hbh, -⟩ := hf.below hb
  obtain ⟨k, hk⟩ := mem_preorder_iff.1 hah
  refine below?_update hf (by rintro rfl; exact hbh hah) hb fun g hg => ?_
  have hkg : k = g := by
    have := below?_trans hf hb hk
    rw [hg] at this
    exact (Option.some.inj this).symm
  have hbg : b ∉ g.preorder := fun hmem => hbh ((hh.below hk).2.2 b (hkg ▸ hmem))
  have hbx : b ≠ x := by
    rintro rfl
    exact hx (mem_preorder_of_below? hb)
  exact ⟨hbg, by simp [mem_preorder_insertAt, hbx, hbg]⟩

/-- What is below a label when a leaf is put below another one. -/
theorem below?_insertLeaf (hf : f.Distinct) (ha : f.below? a = some g) (hb : f.below? b = some h)
    (hx : x ∉ f.preorder) (i : Nat) :
    ∃ h', (f.update a (·.insertAt i x nil)).below? b = some h' ∧
      (∀ y, y ∈ h'.roots ↔ y ∈ h.roots ∨ (b = a ∧ y = x)) ∧
      ∀ y, y ∈ h'.preorder ↔ y ∈ h.preorder ∨ ((b = a ∨ a ∈ h.preorder) ∧ y = x) := by
  obtain ⟨hh, hbh, -⟩ := hf.below hb
  by_cases hba : b = a
  · subst hba
    rw [ha] at hb
    cases hb
    refine ⟨_, below?_update_self ha _, fun y => ?_, fun y => ?_⟩
    · rw [mem_roots_insertAt]
      simp [or_comm]
    · rw [mem_preorder_insertAt]
      simp [or_comm]
  · by_cases hah : a ∈ h.preorder
    · obtain ⟨k, hk⟩ := mem_preorder_iff.1 hah
      refine ⟨_, below?_insertLeaf_of_mem hf hb hx hah i, fun y => ?_, fun y => ?_⟩
      · rw [roots_update]
        simp [hba]
      · rw [mem_preorder_update_insertAt hh hk]
        simp [hah, or_comm]
    · refine ⟨h, below?_insertLeaf_of_notMem hf ha hb hx hba hah i, fun y => ?_, fun y => ?_⟩
      · simp [hba]
      · simp [hba, hah]

/-- A leaf that is put below one label is directly below no other one. -/
theorem roots_below?_insertLeaf (f : Forest α) (hba : b ≠ a) (hbx : b ≠ x) (i : Nat) :
    ((f.update a (·.insertAt i x nil)).below? b).map roots = (f.below? b).map roots := by
  induction f with
  | nil => rfl
  | cons e c r ihc ihr =>
      rw [update]
      split
      · rename_i he
        rw [below?, below?, he, if_neg (Ne.symm hba), if_neg (Ne.symm hba),
          below?_insertAt hbx (by simp)]
      · rw [below?, below?]
        split
        · rw [Option.map_some, Option.map_some, roots_update]
        · rw [Option.map_or, Option.map_or, ihc, ihr]

/-- Nothing is below a leaf that was put below a label. -/
theorem below?_newLeaf (hf : f.Distinct) (ha : f.below? a = some g) (hx : x ∉ f.preorder)
    (i : Nat) : (f.update a (·.insertAt i x nil)).below? x = some nil := by
  have hxg : x ∉ g.preorder := fun hmem => hx ((hf.below ha).2.2 x hmem)
  exact below?_trans (hf.update_insertAt ha hx i) (below?_update_self ha _)
    (below?_insertAt_self hxg)

/-- What is below a label when a leaf is taken away. -/
theorem below?_removeLeaf (hf : f.Distinct) (hx : f.below? x = some nil) (hb : f.below? b = some h)
    (hbx : b ≠ x) : ∃ h', (f.remove x).below? b = some h' ∧
      (∀ y, y ∈ h'.roots ↔ y ∈ h.roots ∧ y ≠ x) ∧
      ∀ y, y ∈ h'.preorder ↔ y ∈ h.preorder ∧ y ≠ x := by
  have hh := (hf.below hb).1
  refine ⟨h.remove x, below?_remove hf hbx hb fun g hg => ?_, fun y => ?_, fun y => ?_⟩
  · rw [hx] at hg
    cases hg
    simp
  · rw [roots_remove hh]
    simp
  · rcases hxh : h.below? x with _ | k
    · have hnot := below?_eq_none_iff.1 hxh
      rw [remove_eq_self hnot]
      exact ⟨fun hy => ⟨hy, by rintro rfl; exact hnot hy⟩, fun hy => hy.1⟩
    · obtain rfl : k = nil := by
        have := below?_trans hf hb hxh
        rw [hx] at this
        cases this
        rfl
      rw [mem_preorder_remove hh hxh]
      simp

end TileFlow.Forest

namespace TileFlow

/-! ### Operations -/

/-- Whether two operations differ in nothing but the regions that they own. -/
def Operation.SameHeader (a b : Operation) : Prop :=
  b = { a with hasRegion := b.hasRegion }

namespace Operation.SameHeader

variable {a b c : Operation}

/-- An operation has the header that it has. -/
theorem refl (a : Operation) : a.SameHeader a := rfl

/-- Headers that are the same twice are the same. -/
theorem trans (h : a.SameHeader b) (h' : b.SameHeader c) : a.SameHeader c := by
  rw [SameHeader] at *
  rw [h', h]

/-- Headers are the same both ways. -/
theorem symm (h : a.SameHeader b) : b.SameHeader a := by
  rw [SameHeader] at *
  rw [h]

/-- Operations with the same header have the same name for a test. -/
theorem is (h : a.SameHeader b) (name : String) : b.is name = a.is name := by
  rw [h, Operation.is, Operation.is]

/-- Operations with the same header have the same result. -/
theorem result (h : a.SameHeader b) : b.result = a.result := by
  rw [h]

/-- Operations with the same header have the same operands. -/
theorem operands (h : a.SameHeader b) : b.operands = a.operands := by
  rw [h]

/-- Operations with the same header have the same name. -/
theorem name (h : a.SameHeader b) : b.name = a.name := by
  rw [h]

/-- Operations with the same header have the same attributes. -/
theorem attributes (h : a.SameHeader b) : b.attributes = a.attributes := by
  rw [h]

/-- Operations with the same header refer to the same values. -/
theorem operandValue? (h : a.SameHeader b) (i : Nat) : b.operandValue? i = a.operandValue? i := by
  rw [Operation.operandValue?, Operation.operandValue?, h.operands]

/-- Operations with the same header refer to the same symbols. -/
theorem operandSymbol? (h : a.SameHeader b) (i : Nat) :
    b.operandSymbol? i = a.operandSymbol? i := by
  rw [Operation.operandSymbol?, Operation.operandSymbol?, h.operands]

/-- Operations with the same header have the same integers as operands. -/
theorem operandInt? (h : a.SameHeader b) (i : Nat) : b.operandInt? i = a.operandInt? i := by
  rw [Operation.operandInt?, Operation.operandInt?, h.operands]

/-- Operations with the same header have the same texts as attributes. -/
theorem textAttr? (h : a.SameHeader b) (key : String) : b.textAttr? key = a.textAttr? key := by
  rw [Operation.textAttr?, Operation.attr?, h.attributes]
  rfl

/-- Operations with the same header have the same integers as attributes. -/
theorem intAttr? (h : a.SameHeader b) (key : String) : b.intAttr? key = a.intAttr? key := by
  rw [Operation.intAttr?, Operation.attr?, h.attributes]
  rfl

end Operation.SameHeader

/-- A value that an operand refers to is among the operands. -/
theorem Operation.mem_operands_of_value {op : Operation} {i : Nat} {v : String}
    (h : op.operandValue? i = some v) : .value v ∈ op.operands := by
  obtain ⟨a, ha, hv⟩ := Option.bind_eq_some_iff.1 h
  cases a <;> cases hv
  exact List.mem_of_getElem? ha

/-- An operation with one of several names has no name that is not among them. -/
theorem Operation.not_is_of_mem {op : Operation} {names : List String} {b : String}
    (h : op.name ∈ names) (hb : b ∉ names) : op.is b = false := by
  rw [Operation.is, beq_eq_false_iff_ne]
  rintro rfl
  exact hb h

/-- A name of an operation is one of several when they hold the operation's own. -/
theorem Operation.mem_of_is {op : Operation} {names : List String} {b : String}
    (h : op.name ∈ names) (hb : op.is b = true) : b ∈ names := by
  rwa [← beq_iff_eq.1 hb]

/-- An operation has one name. -/
theorem Operation.is_inj {op : Operation} {a b : String} (ha : op.is a = true)
    (hb : op.is b = true) : a = b :=
  (beq_iff_eq.1 ha).symm.trans (beq_iff_eq.1 hb)

/-- An operation has no second name. -/
theorem Operation.not_is_of_is {op : Operation} {a b : String} (h : op.is a = true) (hab : a ≠ b) :
    op.is b = false := by
  rw [Operation.is, beq_iff_eq] at h
  rw [Operation.is, h, beq_eq_false_iff_ne]
  exact hab

namespace Program

variable {p q : Program} {parent leaf : OpId} {op : Operation}

/-- A program with a new operation below another one, apart from its place among the siblings. -/
structure Adds (p : Program) (parent : OpId) (op : Operation) (q : Program) : Prop where
  wellFormed : q.WellFormed
  walk : ∀ id, id ∈ q.walk ↔ id = p.slots.size ∨ id ∈ p.walk
  new : q.op p.slots.size = op
  old : ∀ id ∈ p.walk, (p.op id).SameHeader (q.op id)
  children : ∀ a ∈ p.walk, ∀ id, id ∈ q.children (some a) ↔
    id ∈ p.children (some a) ∨ (a = parent ∧ id = p.slots.size)
  walkIn : ∀ a ∈ p.walk, ∀ id, id ∈ q.walkIn a ↔
    id ∈ p.walkIn a ∨ ((a = parent ∨ parent ∈ p.walkIn a) ∧ id = p.slots.size)
  leaf : q.children (some p.slots.size) = []

/-- A creation within the body adds a leaf to it. -/
theorem adds_insertAt (hp : p.WellFormed) (hparent : parent ∈ p.walk) (i : Nat) (op : Operation) :
    p.Adds parent op (p.insertAt (some parent) i op).2 := by
  obtain ⟨g, hg⟩ := Forest.mem_preorder_iff.1 hparent
  have hbody : (p.insertAt (some parent) i op).2.body =
      p.body.update parent (·.insertAt i p.slots.size .nil) := body_insertAt_some p i op
  have hne := Nat.ne_of_lt (hp.created parent hparent)
  refine ⟨hp.insertAt_some hparent i op, fun id => mem_walk_insertAt_some hp hparent, ?_,
    fun id hid => ?_, fun a ha id => ?_, fun a ha id => ?_, ?_⟩
  · rw [Program.op, slot_insertAt_some_new hne]
    rfl
  · by_cases hidp : id = parent
    · rw [hidp, op_insertAt_parent (hp.created parent hparent)]
      rfl
    · rw [op_congr (slot_insertAt_some hidp (hp.created id hid) i op)]
      exact .refl _
  · obtain ⟨h, hh⟩ := Forest.mem_preorder_iff.1 ha
    obtain ⟨h', hh', hroots, -⟩ := Forest.below?_insertLeaf hp.distinct hg hh hp.notMem_walk i
    rw [children, block, below_of_below? (hbody ▸ hh'), children, block, below_of_below? hh]
    exact hroots id
  · obtain ⟨h, hh⟩ := Forest.mem_preorder_iff.1 ha
    obtain ⟨h', hh', -, hpre⟩ := Forest.below?_insertLeaf hp.distinct hg hh hp.notMem_walk i
    rw [walkIn, below_of_below? (hbody ▸ hh'), walkIn, below_of_below? hh]
    exact hpre id
  · have := Forest.below?_newLeaf hp.distinct hg hp.notMem_walk i
    rw [children, block, below_of_below? (hbody ▸ this)]
    rfl

/-- A program without an operation below which there was none. -/
structure Drops (p : Program) (leaf : OpId) (q : Program) : Prop where
  wellFormed : q.WellFormed
  walk : ∀ id, id ∈ q.walk ↔ id ∈ p.walk ∧ id ≠ leaf
  op : ∀ id, q.op id = p.op id
  children : ∀ a ∈ q.walk, ∀ id, id ∈ q.children (some a) ↔ id ∈ p.children (some a) ∧ id ≠ leaf
  walkIn : ∀ a ∈ q.walk, ∀ id, id ∈ q.walkIn a ↔ id ∈ p.walkIn a ∧ id ≠ leaf

/-- The erasure of a leaf of the body drops it. -/
theorem drops_erase (hp : p.WellFormed) (hleaf : p.body.below? leaf = some .nil) :
    p.Drops leaf (p.erase leaf) := by
  have hwalk : ∀ id, id ∈ (p.erase leaf).walk ↔ id ∈ p.walk ∧ id ≠ leaf := fun id => by
    rw [walk, body_erase, Forest.mem_preorder_remove hp.distinct hleaf]
    simp [walk]
  refine ⟨hp.erase leaf, hwalk, op_erase p leaf, fun a ha id => ?_, fun a ha id => ?_⟩
  · obtain ⟨hap, hne⟩ := (hwalk a).1 ha
    obtain ⟨h, hh⟩ := Forest.mem_preorder_iff.1 hap
    obtain ⟨h', hh', hroots, -⟩ := Forest.below?_removeLeaf hp.distinct hleaf hh hne
    rw [children, block, below_of_below? hh', children, block, below_of_below? hh]
    exact hroots id
  · obtain ⟨hap, hne⟩ := (hwalk a).1 ha
    obtain ⟨h, hh⟩ := Forest.mem_preorder_iff.1 hap
    obtain ⟨h', hh', -, hpre⟩ := Forest.below?_removeLeaf hp.distinct hleaf hh hne
    rw [walkIn, below_of_below? hh', walkIn, below_of_below? hh]
    exact hpre id

/-- The operations directly below one are below it. -/
theorem mem_walkIn_of_mem_children {a id : OpId} (h : id ∈ p.children (some a)) :
    id ∈ p.walkIn a :=
  Forest.mem_preorder_of_mem_roots h

/-- An operation with none directly below it has none below it. -/
theorem below_eq_nil {a : OpId} (h : p.children (some a) = []) : p.below a = .nil := by
  rw [children, block] at h
  cases hbelow : p.below a with
  | nil => rfl
  | cons b c r =>
      rw [hbelow] at h
      cases h

end Program

end TileFlow
