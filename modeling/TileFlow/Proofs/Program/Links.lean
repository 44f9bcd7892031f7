import TileFlow.Proofs.Program.Evolution
import TileFlow.Proofs.Program.Leaf
import TileFlow.Proofs.Program.Tree

/-!
# Links after edits

An edit of a tree changes the links of few operations. One that is created is listed by its parent,
one that is erased is listed by none, and apart from that every list of children stays as it is,
also among the operations that were erased before. So do the parents, for an operation of a tree set
aside keeps the one that it was cut from. After a run of edits an operation was therefore there at
the start, and then it was already listed by the operation that lists it now, or one of the edits
created it.

## Main results

* `Program.Tree.children_insertAt`, `Program.Tree.children_erase`: the lists of children.
* `Program.Tree.parent?_insertAt`, `Program.Tree.parent?_erase`: the parents.
* `Program.Edits.mem_children`: edits do not move operations.
* `Program.Edits.exists_creation`: the edit that created an operation.
-/

namespace TileFlow

/-- The roots of two forests side by side are those of the one and then those of the other. -/
theorem Forest.roots_append {α : Type} (f g : Forest α) : (f ++ g).roots = f.roots ++ g.roots := by
  rw [roots_eq, trees_append, List.map_append, ← roots_eq, ← roots_eq]

/-- The root of a tree that is inserted within bounds stands at its place. -/
theorem Forest.roots_insertAt_of_le {α : Type} {f : Forest α} {i : Nat}
    (h : i ≤ f.roots.length) (a : α)
    (c : Forest α) : (f.insertAt i a c).roots = f.roots.insertIdx i a := by
  induction f generalizing i with
  | nil =>
      obtain rfl : i = 0 := Nat.le_zero.1 h
      rfl
  | cons b d r _ ih =>
      cases i with
      | zero => rfl
      | succ i =>
          rw [insertAt, roots, ih (Nat.le_of_succ_le_succ h), roots, List.insertIdx_succ_cons]

/-- When a tree is cut out and put below a label, the roots below all other labels stay. -/
theorem Forest.roots_below?_graft {α : Type} [DecidableEq α] {f g k : Forest α} {a x c : α}
    (hcut : (Forest.cons x g f).Distinct) (hup : (f.update a (· ++ single x g)).Distinct)
    (ha : f.below? a = some k) (hc : c ≠ a) :
    ((f.update a (· ++ single x g)).below? c).map roots = ((cons x g f).below? c).map roots := by
  obtain ⟨-, hxf, -, hf, hdisj⟩ := distinct_cons.1 hcut
  have hself := below?_update_self ha (· ++ single x g)
  have hsplit : (cons x g f).below? c = ((single x g).below? c).or (f.below? c) :=
    below?_append (single x g) f c
  rcases htree : (single x g).below? c with _ | t
  · rw [hsplit, htree, Option.none_or]
    by_cases hck : c ∈ k.preorder
    · obtain ⟨t, ht⟩ := mem_preorder_iff.1 hck
      rw [below?_trans hf ha ht, below?_trans hup hself (by rw [below?_append, ht, Option.some_or])]
    · have hnew : c ∉ (k ++ single x g).preorder := by
        rw [preorder_append, List.mem_append, not_or]
        exact ⟨hck, below?_eq_none_iff.1 htree⟩
      rw [below?_update_of_notMem hf ha (fun b hb => by simp [hb]) hc hnew, Option.map_map]
      exact congrArg (Option.map · _) (funext fun h => roots_update h a _)
  · have hcf : c ∉ f.preorder := by
      rcases List.mem_cons.1 (mem_preorder_of_below? htree) with rfl | hmem
      · exact hxf
      · exact hdisj c (by simpa using hmem)
    have hck : c ∉ k.preorder := fun hmem => hcf ((hf.below ha).2.2 c hmem)
    rw [hsplit, htree, Option.some_or, below?_trans hup hself (by
      rw [below?_append, below?_eq_none_iff.2 hck, Option.none_or, htree])]

/-- What is below an operation when one more tree is set aside. -/
theorem below?_insertDetached {d : Detached} {l : List Detached} {b : OpId}
    (h : ∀ g, d.below? b = some g → (asideForest l).below? b = none) :
    (asideForest (Program.insertDetached d l)).below? b =
      (d.below? b).or ((asideForest l).below? b) := by
  simp only [below?_asideForest] at h ⊢
  induction l with
  | nil => cases hd : d.below? b <;> simp [Program.insertDetached, hd]
  | cons e rest ih =>
      rw [Program.insertDetached]
      split
      · rw [List.findSome?_cons]
        cases d.below? b <;> rfl
      · rw [List.findSome?_cons] at h ⊢
        rw [List.findSome?_cons]
        cases hd : d.below? b with
        | none =>
            rw [hd] at ih
            rw [ih (by simp)]
            rfl
        | some g =>
            have hnone := h g hd
            split at hnone
            · cases hnone
            · rw [ih fun _ _ => hnone, hd, Option.some_or]

namespace Program

variable {p q : Program} {id a x : OpId} {b parent : Option OpId} {op : Operation} {i : Nat}

/-- The children of an operation are the roots of the forest below it. -/
theorem children_some (p : Program) (a : OpId) :
    p.children (some a) = ((p.whole.below? a).map Forest.roots).getD [] := by
  rw [children, block, below_eq]
  cases p.whole.below? a <;> rfl

/-- An operation that nothing lists as a child is the root of a tree set aside, if it is
anywhere. -/
theorem Tree.parent?_of_unlinked (hp : p.Tree) (h : ∀ b, id ∉ p.children b) :
    p.parent? id = (p.detached.find? (·.root == id)).bind (·.parent) := by
  rw [parent?]
  split
  · rename_i hplace
    exact absurd (List.mem_of_getElem? (hp.locate?_eq_some_iff.1 hplace)) (h _)
  · rfl

/-- An operation that is listed by the same one, or cut from the same one, has the same parent. -/
theorem Tree.parent?_congr (hp : p.Tree) (hq : q.Tree)
    (hchildren : ∀ b, id ∈ q.children b ↔ id ∈ p.children b)
    (haside : (q.detached.find? (·.root == id)).bind (·.parent) =
      (p.detached.find? (·.root == id)).bind (·.parent)) : q.parent? id = p.parent? id := by
  by_cases hlinked : ∃ b, id ∈ p.children b
  · obtain ⟨b, hb⟩ := hlinked
    rw [hp.parent?_eq hb, hq.parent?_eq ((hchildren b).2 hb)]
  · have hnone : ∀ b, id ∉ p.children b := fun b hb => hlinked ⟨b, hb⟩
    rw [hp.parent?_of_unlinked hnone,
      hq.parent?_of_unlinked fun b hb => hnone b ((hchildren b).1 hb), haside]

/-- Edits below the roots of trees set aside do not change where these were cut from. -/
theorem cutFrom_map {l : List Detached} {f : Detached → Detached}
    (hf : ∀ d, (f d).root = d.root ∧ (f d).parent = d.parent) :
    ((l.map f).find? (·.root == id)).bind (·.parent) =
      (l.find? (·.root == id)).bind (·.parent) := by
  have hroot : ((·.root == id) ∘ f) = (·.root == id) := funext fun d => by
    rw [Function.comp_apply, (hf d).1]
  rw [List.find?_map, hroot, Option.bind_map]
  exact congrArg _ (funext fun d => (hf d).2)

/-! ### Creation -/

/-- A creation leaves the children of all but the place alone. -/
theorem Tree.children_insertAt (hp : p.Tree) (hb : b ≠ some a) (hnew : b ≠ some p.slots.size) :
    (p.insertAt (some a) i op).2.children b = p.children b := by
  cases b with
  | none => exact Forest.roots_update _ _ _
  | some c =>
      rw [children_some, children_some, hp.whole_insertAt,
        Forest.roots_below?_insertLeaf _ (fun h => hb (congrArg _ h)) fun h => hnew (congrArg _ h)]

/-- The parent of a new operation lists it besides its other children. -/
theorem Tree.mem_children_insertAt (hp : p.Tree) :
    id ∈ (p.insertAt (some a) i op).2.children (some a) ↔
      id ∈ p.children (some a) ∨ (a ∈ p.whole.preorder ∧ id = p.slots.size) := by
  rw [children_some, children_some, hp.whole_insertAt]
  rcases ha : p.whole.below? a with _ | g
  · have hmem := Forest.below?_eq_none_iff.1 ha
    simp [Forest.update_eq_self hmem, ha, hmem]
  · have hmem := Forest.mem_preorder_of_below? ha
    rw [Forest.below?_update_self ha]
    simp [Forest.mem_roots_insertAt, hmem, or_comm]

/-- A new operation has no children. -/
theorem Tree.children_insertAt_new (hp : p.Tree) :
    (p.insertAt (some a) i op).2.children (some p.slots.size) = [] := by
  have hnew : p.slots.size ∉ p.whole.preorder := fun h => Nat.lt_irrefl _ (hp.lt _ h)
  rw [children_some, hp.whole_insertAt]
  rcases ha : p.whole.below? a with _ | g
  · rw [Forest.update_eq_self (Forest.below?_eq_none_iff.1 ha), Forest.below?_eq_none_iff.2 hnew]
    rfl
  · rw [Forest.below?_newLeaf hp.distinct ha hnew]
    rfl

/-- A creation leaves the parents of the operations of before alone. -/
theorem Tree.parent?_insertAt (hp : p.Tree) (hid : id ≠ p.slots.size) :
    (p.insertAt (some a) i op).2.parent? id = p.parent? id := by
  refine hp.parent?_congr (hp.insertAt _ i op) (fun b => ?_) ?_
  · by_cases hb : b = some a
    · rw [hb, hp.mem_children_insertAt]
      simp [hid]
    · by_cases hnew : b = some p.slots.size
      · have hold : p.children (some p.slots.size) = [] := by
          rw [children_some, Forest.below?_eq_none_iff.2 fun h => Nat.lt_irrefl _ (hp.lt _ h)]
          rfl
        rw [hnew, hp.children_insertAt_new, hold]
      · rw [hp.children_insertAt hb hnew]
  · rw [detached_insertAt_some]
    exact cutFrom_map fun _ => ⟨rfl, rfl⟩

/-- Whether a place is the top, or an operation of the forest. -/
def IsPlace (p : Program) (parent : Option OpId) : Prop :=
  ∀ a, parent = some a → a ∈ p.whole.preorder

/-- The identity of the next operation has no place yet. -/
theorem Tree.notMem_new (hp : p.Tree) : p.slots.size ∉ p.whole.preorder := fun h =>
  Nat.lt_irrefl _ (hp.lt _ h)

/-- What is nowhere has no children. -/
theorem children_of_notMem (h : a ∉ p.whole.preorder) : p.children (some a) = [] := by
  rw [children_some, Forest.below?_eq_none_iff.2 h]
  rfl

/-- The lists of children when a new operation is put at a place. -/
theorem Tree.children_insertAt_of_isPlace (hp : p.Tree) (h : p.IsPlace parent)
    (hi : i ≤ (p.children parent).length) (op : Operation) (b : Option OpId) :
    (p.insertAt parent i op).2.children b =
      if b = parent then (p.children parent).insertIdx i p.slots.size else p.children b := by
  cases parent with
  | none =>
      cases b with
      | none => exact Forest.roots_insertAt_of_le hi _ _
      | some c =>
          rw [if_neg (by simp)]
          by_cases hc : c = p.slots.size
          · rw [hc, children_of_notMem hp.notMem_new, children_some, whole, body_insertAt_none,
              Forest.below?_append, Forest.below?_insertAt_self, Option.some_or]
            · rfl
            · exact fun hmem => hp.notMem_new (mem_whole_of_mem_walk hmem)
          · rw [children, block, below, body_insertAt_none, Forest.below?_insertAt hc (by simp)]
            rfl
  | some a =>
      by_cases hb : b = some a
      · rw [if_pos hb, hb, children_some, hp.whole_insertAt, children_some]
        obtain ⟨g, hg⟩ := Forest.mem_preorder_iff.1 (h a rfl)
        rw [children_some, hg] at hi
        rw [Forest.below?_update_self hg, hg]
        exact Forest.roots_insertAt_of_le hi _ _
      · rw [if_neg hb]
        by_cases hnew : b = some p.slots.size
        · rw [hnew, hp.children_insertAt_new, children_of_notMem hp.notMem_new]
        · exact hp.children_insertAt hb hnew

/-- A new operation was put where it is, and the others stay where they are. -/
theorem Tree.parent?_insertAt_of_isPlace (hp : p.Tree) (h : p.IsPlace parent)
    (hi : i ≤ (p.children parent).length) (op : Operation) (id : OpId) :
    (p.insertAt parent i op).2.parent? id = if id = p.slots.size then parent else p.parent? id := by
  have hq := hp.insertAt parent i op
  have hchildren := hp.children_insertAt_of_isPlace h hi op
  split
  · rename_i hid
    refine hq.parent?_eq ?_
    rw [hchildren, if_pos rfl, hid, List.mem_insertIdx hi]
    exact .inl rfl
  · rename_i hid
    refine hp.parent?_congr hq (fun b => ?_) ?_
    · rw [hchildren]
      split
      · rename_i hb
        rw [hb, List.mem_insertIdx hi]
        simp [hid]
      · rfl
    · cases parent with
      | none => rfl
      | some a =>
          rw [detached_insertAt_some]
          exact cutFrom_map fun _ => ⟨rfl, rfl⟩

/-- The new operation is the only one that a creation adds, be it to the body or aside. -/
theorem Tree.mem_whole_insertAt (hp : p.Tree) (h : p.IsPlace parent) (i : Nat) (op : Operation) :
    id ∈ (p.insertAt parent i op).2.whole.preorder ↔ id = p.slots.size ∨ id ∈ p.whole.preorder := by
  cases parent with
  | none =>
      have haside : (p.insertAt none i op).2.detached = p.detached := rfl
      rw [whole, body_insertAt_none, haside, Forest.preorder_append, List.mem_append,
        Forest.mem_preorder_insertAt, preorder_whole, List.mem_append, walk]
      simp [or_assoc]
  | some a =>
      obtain ⟨g, hg⟩ := Forest.mem_preorder_iff.1 (h a rfl)
      rw [hp.whole_insertAt, Forest.mem_preorder_update_insertAt hp.distinct hg]

/-! ### Erasure -/

/-- A tree that is cut out and what is left are all that there was. -/
theorem Tree.mem_cut (hp : p.Tree) (hx : x ∈ p.whole.preorder) :
    id ∈ (Forest.cons x (p.below x) (p.whole.remove x)).preorder ↔ id ∈ p.whole.preorder := by
  obtain ⟨g, hg⟩ := Forest.mem_preorder_iff.1 hx
  have hin := (hp.distinct.below hg).2.2 id
  rw [below_of_whole hg, Forest.preorder_cons, List.mem_cons, List.mem_append,
    Forest.mem_preorder_remove hp.distinct hg]
  constructor
  · rintro (rfl | hid | hid)
    · exact hx
    · exact hin hid
    · exact hid.1
  · intro hid
    by_cases hne : id = x
    · exact .inl hne
    · by_cases hbelow : id ∈ g.preorder
      · exact .inr (.inl hbelow)
      · exact .inr (.inr ⟨hid, hne, hbelow⟩)

/-- A tree that is cut out is apart from the trees that stay. -/
theorem Tree.below?_remove_of_cut (hp : p.Tree) (hx : x < p.slots.size) {c : OpId} {g : Forest OpId}
    (hg : (⟨b, x, p.below x⟩ : Detached).below? c = some g) :
    (p.remove x).body.below? c = none ∧ (asideForest (p.remove x).detached).below? c = none := by
  have hcut := (hp.cut hx).distinct
  rw [← hp.whole_remove] at hcut
  obtain ⟨-, hxrest, -, -, hdisj⟩ := Forest.distinct_cons.1 hcut
  have hnot : c ∉ (p.remove x).whole.preorder := by
    rw [Detached.below?] at hg
    split at hg
    · rename_i hcx
      exact hcx ▸ hxrest
    · exact hdisj c (Forest.mem_preorder_of_below? hg)
  rwa [← Forest.below?_eq_none_iff, whole, Forest.below?_append, Option.or_eq_none_iff] at hnot

/-- What is below an operation of the trees set aside when one more is cut out. -/
theorem Tree.below?_aside_erase (hp : p.Tree) (hx : x < p.slots.size) (c : OpId) :
    (asideForest (p.erase x).detached).below? c =
      (Forest.cons x (p.below x) (asideForest (p.remove x).detached)).below? c := by
  have herase : (p.erase x).detached =
      insertDetached ⟨p.parent? x, x, p.below x⟩ (p.remove x).detached := rfl
  rw [herase, below?_insertDetached fun g hg => (hp.below?_remove_of_cut hx hg).2, Forest.below?,
    Detached.below?]
  split <;> rfl

/-- What is below an operation when a tree is cut out and set aside. -/
theorem Tree.below?_whole_erase (hp : p.Tree) (hx : x < p.slots.size) (c : OpId) :
    (p.erase x).whole.below? c = (Forest.cons x (p.below x) (p.whole.remove x)).below? c := by
  have hcons (f : Forest OpId) : (Forest.cons x (p.below x) f).below? c =
      ((⟨none, x, p.below x⟩ : Detached).below? c).or (f.below? c) := by
    rw [Forest.below?, Detached.below?]
    split <;> rfl
  have hbody : (p.erase x).body = (p.remove x).body := rfl
  rw [whole, Forest.below?_append, hp.below?_aside_erase hx, hcons, hcons, ← hp.whole_remove, whole,
    Forest.below?_append, hbody]
  rcases hd : (⟨none, x, p.below x⟩ : Detached).below? c with _ | g
  · rfl
  · rw [(hp.below?_remove_of_cut hx hd).1]
    rfl

/-- An operation that is erased is no child any more, and all other children are what they were. -/
theorem Tree.children_erase (hp : p.Tree) (hx : x < p.slots.size) (b : Option OpId) :
    (p.erase x).children b = (p.children b).filter (· ≠ x) := by
  cases b with
  | none => exact Forest.roots_remove hp.distinct_body
  | some c =>
      have hkeep : ∀ l : List OpId, x ∉ l → l.filter (· ≠ x) = l := fun l hl =>
        List.filter_eq_self.2 fun y hy => decide_eq_true fun heq => hl (heq ▸ hy)
      have hself : x ∉ p.walkIn x := hp.notMem_walkIn_self x
      rw [children_some, hp.below?_whole_erase hx, Forest.below?]
      split
      · rename_i hxc
        subst hxc
        rw [Option.map_some, Option.getD_some, hkeep _ fun h =>
          hself (mem_walkIn_of_mem_children h)]
        rfl
      · rename_i hne
        rw [children_some]
        rcases hc : p.whole.below? c with _ | h
        · -- An operation that is nowhere before is nowhere after.
          have hmem := Forest.below?_eq_none_iff.1 hc
          have hbelow : c ∉ (p.below x).preorder := fun hin => hmem (by
            rcases hxw : p.whole.below? x with _ | g
            · rw [below_of_notMem (Forest.below?_eq_none_iff.1 hxw)] at hin
              cases hin
            · rw [below_of_whole hxw] at hin
              exact (hp.distinct.below hxw).2.2 c hin)
          have hrest : c ∉ (p.whole.remove x).preorder := fun hin =>
            hmem (Forest.mem_preorder_of_remove hp.distinct hin)
          rw [Forest.below?_eq_none_iff.2 hbelow, Forest.below?_eq_none_iff.2 hrest]
          rfl
        · by_cases hin : c ∈ (p.below x).preorder
          · -- The erased tree goes on as it was.
            obtain ⟨k, hk⟩ := Forest.mem_preorder_iff.1 hin
            rcases hxw : p.whole.below? x with _ | g
            · rw [below_of_notMem (Forest.below?_eq_none_iff.1 hxw)] at hin
              cases hin
            · have hkc := hk
              rw [below_of_whole hxw] at hkc
              obtain rfl : h = k :=
                Option.some.inj (hc.symm.trans (Forest.below?_trans hp.distinct hxw hkc))
              have hxh : x ∉ h.roots := fun hroot => hself (by
                rw [walkIn, below_of_whole hxw]
                exact ((hp.distinct.below hxw).1.below hkc).2.2 x
                  (Forest.mem_preorder_of_mem_roots hroot))
              rw [hk, Option.some_or, Option.map_some, Option.getD_some, hkeep _ hxh]
          · rw [Forest.below?_eq_none_iff.2 hin, Option.none_or,
              Forest.below?_remove hp.distinct (Ne.symm hne) hc fun g hg => by
                rwa [below_of_whole hg] at hin, Option.map_some, Option.getD_some, Option.map_some,
              Option.getD_some, Forest.roots_remove (hp.distinct.below hc).1]

/-- A tree set aside is found as before when one more with another root is set aside. -/
theorem find?_insertDetached {d : Detached} {l : List Detached} (hd : d.root ≠ id) :
    (insertDetached d l).find? (·.root == id) = l.find? (·.root == id) := by
  induction l with
  | nil => simp [insertDetached, hd]
  | cons e rest ih =>
      rw [insertDetached]
      split
      · rw [List.find?_cons_of_neg (by simpa using hd)]
      · rw [List.find?_cons, List.find?_cons, ih]

/-- A tree set aside is found as before when one with another root is taken away. -/
theorem find?_filter_root {l : List Detached} (hid : id ≠ x) :
    (l.filter (·.root != x)).find? (·.root == id) = l.find? (·.root == id) := by
  rw [List.find?_filter]
  congr 1
  funext t
  by_cases ht : t.root = id
  · simp [ht, hid]
  · simp [ht]

/-- An erasure leaves the parents of the other operations alone. -/
theorem Tree.parent?_erase (hp : p.Tree) (hx : x < p.slots.size) (hid : id ≠ x) :
    (p.erase x).parent? id = p.parent? id := by
  refine hp.parent?_congr (hp.erase hx) (fun b => ?_) ?_
  · rw [hp.children_erase hx, List.mem_filter]
    simp [hid]
  · rw [detached_erase, find?_insertDetached (Ne.symm hid), ← find?_filter_root
      (l := p.detached) hid]
    exact cutFrom_map fun _ => ⟨rfl, rfl⟩

/-- The root of a tree set aside keeps the parent that it was cut from. -/
theorem Tree.parent?_erase_self (hp : p.Tree) (hx : x < p.slots.size) :
    (p.erase x).parent? x = p.parent? x := by
  have hfind : ∀ l : List Detached, (∀ d ∈ l, d.root ≠ x) →
      ((insertDetached ⟨p.parent? x, x, p.below x⟩ l).find? (·.root == x)).bind (·.parent) =
        p.parent? x := fun l hl => by
    induction l with
    | nil => simp [insertDetached]
    | cons e rest ih =>
        rw [insertDetached]
        split
        · simp
        · rw [List.find?_cons_of_neg (by simpa using hl e List.mem_cons_self)]
          exact ih fun d hd => hl d (List.mem_cons_of_mem _ hd)
  rw [(hp.erase hx).parent?_of_unlinked fun b hb => by
    rw [hp.children_erase hx, List.mem_filter] at hb
    simpa using hb.2, detached_erase]
  refine hfind _ fun d hd => ?_
  obtain ⟨e, he, rfl⟩ := List.mem_map.1 hd
  simpa using (List.mem_filter.1 he).2

/-! ### Moves -/

/-- Whether a tree may be moved to a place: one of the forest, and outside of the tree. -/
def Admits (p : Program) (x : OpId) (parent : Option OpId) : Prop :=
  ∀ a, parent = some a → a ∈ p.whole.preorder ∧ a ≠ x ∧ a ∉ p.walkIn x

/-- The place that a tree is moved to is still there when the tree is taken out. -/
theorem Tree.below?_remove_of_admits (hp : p.Tree) (h : p.Admits x (some a)) :
    ∃ k, (p.whole.remove x).below? a = some k := by
  obtain ⟨ha, hax, hain⟩ := h a rfl
  rw [← Forest.mem_preorder_iff]
  by_cases hx : x ∈ p.whole.preorder
  · obtain ⟨g, hg⟩ := Forest.mem_preorder_iff.1 hx
    rw [walkIn, below_of_whole hg] at hain
    exact (Forest.mem_preorder_remove hp.distinct hg).2 ⟨ha, hax, hain⟩
  · rwa [Forest.remove_eq_self hx]

/-- A move to the top leaves below each operation what an erasure does. -/
theorem Tree.below?_moveTo_none (hp : p.Tree) (hx : x < p.slots.size) (c : OpId) :
    (p.moveTo x none).whole.below? c = (p.erase x).whole.below? c := by
  have hcut := (hp.cut hx).distinct
  rw [← hp.whole_remove] at hcut
  obtain ⟨-, hxrest, -, -, hdisj⟩ := Forest.distinct_cons.1 hcut
  have hmove : (p.moveTo x none).whole =
      (p.remove x).body ++ .single x (p.below x) ++ asideForest (p.remove x).detached := rfl
  rw [hp.below?_whole_erase hx, ← hp.whole_remove, hmove, Forest.below?_append,
    Forest.below?_append, whole, Forest.below?, Forest.below?_append, Forest.single, Forest.below?]
  simp only [Forest.below?, Option.or_none]
  by_cases hmem : c = x ∨ c ∈ (p.below x).preorder
  · have hbody : c ∉ (p.remove x).body.preorder := fun h => by
      have hwhole : c ∈ (p.remove x).whole.preorder := mem_whole_of_mem_walk h
      rcases hmem with rfl | hmem
      · exact hxrest hwhole
      · exact hdisj c hmem hwhole
    rw [Forest.below?_eq_none_iff.2 hbody, Option.none_or]
    split
    · rfl
    · rename_i hne
      obtain ⟨g, hg⟩ := Forest.mem_preorder_iff.1 (hmem.resolve_left (Ne.symm hne))
      rw [hg, Option.some_or, Option.some_or]
  · rw [not_or] at hmem
    rw [if_neg (Ne.symm hmem.1), if_neg (Ne.symm hmem.1), Forest.below?_eq_none_iff.2 hmem.2,
      Option.or_none, Option.none_or]

/-- The lists of children after a move: the operation is gone from where it was, and the last one of
its new parent. -/
theorem Tree.children_moveTo (hp : p.Tree) (hx : x < p.slots.size) (h : p.Admits x parent)
    (b : Option OpId) : (p.moveTo x parent).children b =
      if b = parent then (p.children b).filter (· ≠ x) ++ [x] else (p.children b).filter
    (· ≠ x) := by
  rw [← hp.children_erase hx]
  have hremove : (p.remove x).whole = p.whole.remove x := hp.whole_remove x
  cases parent with
  | none =>
      cases b with
      | none => exact Forest.roots_append _ _
      | some c => rw [if_neg (by simp), children_some, hp.below?_moveTo_none hx, ← children_some]
  | some a =>
      obtain ⟨-, hax, hain⟩ := h a rfl
      have hcut := (hp.cut hx).distinct
      have hq := (hp.moveTo hx (some a)).distinct
      have hmove : (p.moveTo x (some a)).whole =
          (p.whole.remove x).update a (· ++ .single x (p.below x)) := by
        rw [Program.moveTo, (hp.remove hx).whole_updateBlock, hremove]
      have herase := hp.below?_whole_erase hx a
      obtain ⟨k, hk⟩ := hp.below?_remove_of_admits h
      rw [Forest.below?, if_neg (Ne.symm hax), Forest.below?_eq_none_iff.2 hain, Option.none_or,
        hk] at herase
      rw [hmove] at hq
      cases b with
      | none =>
          rw [if_neg (by simp)]
          exact Forest.roots_update _ _ _
      | some c =>
          rw [children_some, children_some, hmove]
          split
          · rename_i hc
            obtain rfl := Option.some.inj hc
            rw [Forest.below?_update_self hk, herase]
            exact Forest.roots_append _ _
          · rename_i hc
            rw [Forest.roots_below?_graft hcut hq hk fun heq => hc (congrArg some heq),
              hp.below?_whole_erase hx]

/-- The parents after a move: that of the operation is the new one, and the others stay. -/
theorem Tree.parent?_moveTo (hp : p.Tree) (hx : x < p.slots.size) (h : p.Admits x parent)
    (id : OpId) : (p.moveTo x parent).parent? id = if id = x then parent else p.parent? id := by
  have hq := hp.moveTo hx parent
  have hchildren := hp.children_moveTo hx h
  split
  · rename_i hid
    refine hq.parent?_eq ?_
    rw [hchildren, if_pos rfl, hid]
    exact List.mem_append_right _ (List.mem_singleton_self x)
  · rename_i hid
    refine hp.parent?_congr hq (fun b => ?_) ?_
    · rw [hchildren]
      split <;> simp [hid]
    · have haside : ((p.remove x).detached.find? (·.root == id)).bind (·.parent) =
          (p.detached.find? (·.root == id)).bind (·.parent) := by
        rw [← find?_filter_root (l := p.detached) hid]
        exact cutFrom_map fun _ => ⟨rfl, rfl⟩
      rw [← haside]
      cases parent with
      | none => rfl
      | some a => exact cutFrom_map fun _ => ⟨rfl, rfl⟩

/-- A move adds and drops no operation. -/
theorem Tree.mem_whole_moveTo (hp : p.Tree) (hx : x ∈ p.whole.preorder) (h : p.Admits x parent) :
    id ∈ (p.moveTo x parent).whole.preorder ↔ id ∈ p.whole.preorder := by
  rw [← hp.mem_cut hx]
  have hremove : (p.remove x).whole = p.whole.remove x := hp.whole_remove x
  cases parent with
  | none =>
      have hmove : (p.moveTo x none).whole =
          (p.remove x).body ++ .single x (p.below x) ++ asideForest (p.remove x).detached := rfl
      rw [hmove, Forest.preorder_cons, ← hremove, whole]
      simp only [Forest.preorder_append, Forest.single, Forest.preorder_cons, Forest.preorder_nil,
        List.mem_append, List.mem_cons, List.append_nil]
      tauto
  | some a =>
      obtain ⟨k, hk⟩ := hp.below?_remove_of_admits h
      have hrest := (Forest.distinct_cons.1 (hp.cut (hp.lt x hx)).distinct).2.2.2.1
      rw [Program.moveTo, (hp.remove (hp.lt x hx)).whole_updateBlock, hremove,
        Forest.mem_preorder_update hrest hk fun b hb => by simp [hb]]
      have hkrest : id ∈ k.preorder → id ∈ (p.whole.remove x).preorder :=
        (hrest.below hk).2.2 id
      simp only [Forest.preorder_append, Forest.single, Forest.preorder_cons, Forest.preorder_nil,
        List.mem_append, List.mem_cons, List.append_nil]
      tauto

/-! ### Runs of edits -/

variable {rule : EditRule}

/-- An edit by a rule leaves a tree. -/
theorem Edit.tree (hp : p.Tree) (h : p.Edit rule q) : q.Tree := by
  cases h with
  | create parent i op => exact hp.insertAt parent i op
  | change id f => exact hp.modify id f
  | erase id hid => exact hp.erase hid

/-- Edits by a rule leave a tree. -/
theorem Edits.tree (hp : p.Tree) (h : p.Edits rule q) : q.Tree := by
  induction h with
  | refl => exact hp
  | tail _ hedit ih => exact hedit.tree ih

/-- At the top, only the new operation is listed anew. -/
theorem Tree.mem_children_insertAt_none (hp : p.Tree) {i : Nat} {op : Operation}
    (hid : id ≠ p.slots.size) (h : id ∈ (p.insertAt none i op).2.children b) :
    id ∈ p.children b := by
  have hnew := created_insertAt_none hp.sound i op
  cases b with
  | none => exact ((hnew.roots id).1 h).resolve_right fun h => hid h.2
  | some c =>
      by_cases hc : c = p.slots.size
      · subst hc
        have hbelow := mem_walkIn_of_mem_children h
        rw [hnew.leaf fun _ ha => nomatch ha] at hbelow
        cases hbelow
      · rw [children, block, below, body_insertAt_none, Forest.below?_insertAt hc (by simp)] at h
        exact h

/-- An edit moves no operation from one list of children to another. -/
theorem Edit.mem_children (hp : p.Tree) (h : p.Edit rule q) (hlt : id < p.slots.size)
    (hid : id ∈ q.children b) : id ∈ p.children b := by
  cases h with
  | create parent i op =>
      cases parent with
      | none => exact hp.mem_children_insertAt_none (Nat.ne_of_lt hlt) hid
      | some a =>
          by_cases hb : b = some a
          · subst hb
            exact (hp.mem_children_insertAt.1 hid).resolve_right fun h => Nat.ne_of_lt hlt h.2
          · by_cases hnew : b = some p.slots.size
            · subst hnew
              rw [hp.children_insertAt_new] at hid
              cases hid
            · rwa [hp.children_insertAt hb hnew] at hid
  | change => exact hid
  | erase x hx =>
      rw [hp.children_erase hx] at hid
      exact (List.mem_filter.1 hid).1

/-- An operation of before was listed by the operation that lists it after a run of edits. -/
theorem Edits.mem_children (hp : p.Tree) (h : p.Edits rule q) (hlt : id < p.slots.size)
    (hid : id ∈ q.children b) : id ∈ p.children b := by
  induction h with
  | refl => exact hid
  | tail hr hedit ih =>
      exact ih (hedit.mem_children (Edits.tree hp hr)
        (Nat.lt_of_lt_of_le hlt (Edits.size_le hr hp.sound)) hid)

/-- What is below an operation is below it in another program that lists all that is listed
there. -/
theorem Tree.walkIn_subset (hp : p.Tree) (hq : q.Tree)
    (h : ∀ b, b = a ∨ b ∈ p.walkIn a → ∀ x ∈ p.children (some b), x ∈ q.children (some b)) :
    ∀ id ∈ p.walkIn a, id ∈ q.walkIn a := fun id hid => by
  rw [walkIn, below_eq] at hid
  rcases hbelow : p.whole.below? a with _ | g
  · rw [hbelow] at hid
    cases hid
  · rw [hbelow, Option.getD_some] at hid
    refine (hp.distinct.forall_below (P := fun x => x ∈ p.walkIn a ∧ x ∈ q.walkIn a)
      (fun b k hb hmem x hx => ?_) hbelow id hid).2
    have hlink : x ∈ p.children (some b) := by
      rw [children_some, hb]
      exact hx
    have hlinkq := mem_walkIn_of_mem_children (h b (hmem.imp_right fun hb => hb.1) x hlink)
    rcases hmem with rfl | ⟨hbp, hbq⟩
    · exact ⟨mem_walkIn_of_mem_children hlink, hlinkq⟩
    · exact ⟨hp.walkIn_trans hbp (mem_walkIn_of_mem_children hlink), hq.walkIn_trans hbq hlinkq⟩

/-- An operation that was not there before is created by one of the edits, and what was created has
its header right after. -/
theorem Edits.exists_creation (hp : p.Sound) (h : p.Edits rule q) (hid : id < q.slots.size)
    (hnew : p.slots.size ≤ id) : ∃ r s parent op, p.Edits rule r ∧ rule.creates r parent op ∧
      r.Edits rule s ∧ s.Edits rule q ∧ id < s.slots.size ∧ op.SameHeader (s.op id) := by
  induction h with
  | refl => exact absurd hid (Nat.not_lt.2 hnew)
  | @tail r q hr hedit ih =>
      have hsound := Edits.sound hr hp
      by_cases hlt : id < r.slots.size
      · obtain ⟨r', s, parent, op, hr', hop, hs, hsr, hids, hheader⟩ := ih hlt
        exact ⟨r', s, parent, op, hr', hop, hs, hsr.tail hedit, hids, hheader⟩
      · cases hedit with
        | create parent i op hop hfresh =>
            have hcreated := created_insertAt hsound parent i op
            have hbound : id < r.slots.size + 1 := hcreated.size ▸ hid
            obtain rfl : id = r.slots.size :=
              Nat.le_antisymm (Nat.le_of_lt_succ hbound) (Nat.le_of_not_lt hlt)
            exact ⟨r, _, parent, op, hr, hop, .single (.create parent i op hop hfresh), .refl, hid,
              hcreated.header⟩
        | change j f => exact absurd (size_modify r j f ▸ hid) hlt
        | erase x hx => exact absurd (size_erase r x ▸ hid) hlt

end Program

end TileFlow
