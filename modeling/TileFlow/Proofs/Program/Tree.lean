import Mathlib.Data.List.Perm.Subperm
import Mathlib.Logic.Relation
import TileFlow.Proofs.Forest.Place
import TileFlow.Proofs.Program.Sound

/-!
# Programs as trees

The body of a program and the trees set aside are one forest. A program is a tree when no operation
is in it twice and all its operations were created. Every edit keeps a program a tree, wherever it
works; the links of a tree are those of the forest, so that parents and children agree.

## Main definitions

* `Program.whole`: the body and the trees set aside.
* `Program.Tree`: the programs in which every operation has one place.

## Main results

* `Program.Tree.insertAt`, `Program.Tree.erase`, `Program.Tree.moveTo`: every edit.
* `Program.Tree.locate?_eq_some_iff`: the place of an operation.
* `Program.Tree.parent?_eq`, `Program.Tree.nodup_children`: parents and children.
* `Program.Tree.not_ancestor`: no operation is below itself.
-/

namespace TileFlow

/-- A forest whose labels are different numbers below a bound. -/
structure Forest.Bounded (f : Forest Nat) (n : Nat) : Prop where
  distinct : f.Distinct
  lt : ∀ a ∈ f.preorder, a < n

/-- A forest with labels of another one only is bounded as that one is. -/
theorem Forest.Bounded.of_subperm {f g : Forest Nat} {n : Nat} (hf : f.Bounded n)
    (h : g.preorder.Subperm f.preorder) : g.Bounded n := by
  refine ⟨?_, fun a ha => hf.lt a (h.subset ha)⟩
  obtain ⟨l, hperm, hsub⟩ := h
  exact hperm.nodup_iff.1 (hf.distinct.sublist hsub)

/-- Trees set aside as one forest. -/
def asideForest : List Detached → Forest OpId
  | [] => .nil
  | t :: rest => .cons t.root t.children (asideForest rest)

theorem asideForest_cons (t : Detached) (rest : List Detached) :
    asideForest (t :: rest) = .cons t.root t.children (asideForest rest) := rfl

/-- What is below an operation of the trees set aside is found in the first that holds it. -/
theorem below?_asideForest (l : List Detached) (id : OpId) :
    (asideForest l).below? id = l.findSome? (·.below? id) := by
  induction l with
  | nil => rfl
  | cons t rest ih =>
      rw [asideForest_cons, Forest.below?, ih, List.findSome?_cons, Detached.below?]
      split
      · rfl
      · cases t.children.below? id <;> rfl

/-- The operations set aside are those of the trees set aside. -/
theorem mem_asideForest {l : List Detached} {id : OpId} :
    id ∈ (asideForest l).preorder ↔ ∃ t ∈ l, id ∈ t.ids := by
  induction l with
  | nil => simp [asideForest]
  | cons t rest ih => simp [asideForest_cons, ih, Detached.ids, or_assoc]

/-- An edit below an operation of the trees set aside. -/
theorem asideForest_update {l : List Detached} {id : OpId} (hl : (asideForest l).Distinct)
    (k : Forest OpId → Forest OpId) :
    asideForest (l.map fun d =>
      { d with children := if d.root = id then k d.children else d.children.update id k }) =
      (asideForest l).update id k := by
  induction l with
  | nil => rfl
  | cons t rest ih =>
      obtain ⟨-, hrest, -, hdistinct, -⟩ := Forest.distinct_cons.1 hl
      rw [List.map_cons, asideForest_cons, ih hdistinct, asideForest_cons, Forest.update]
      split
      · rename_i hroot
        rw [Forest.update_eq_self (hroot ▸ hrest)]
      · rfl

/-- A removal among the trees set aside, be it of a whole one. -/
theorem asideForest_remove {l : List Detached} {id : OpId} (hl : (asideForest l).Distinct) :
    asideForest ((l.filter (·.root != id)).map fun d =>
      { d with children := d.children.remove id }) = (asideForest l).remove id := by
  induction l with
  | nil => rfl
  | cons t rest ih =>
      obtain ⟨-, hrest, -, hdistinct, -⟩ := Forest.distinct_cons.1 hl
      rw [asideForest_cons, Forest.remove]
      split
      · rename_i hroot
        rw [List.filter_cons_of_neg (by simp [hroot]), ih hdistinct,
          Forest.remove_eq_self (hroot ▸ hrest)]
      · rename_i hroot
        rw [List.filter_cons_of_pos (by simp [hroot]), List.map_cons, asideForest_cons,
          ih hdistinct]

/-- One more tree is set aside. -/
theorem preorder_insertDetached (d : Detached) (l : List Detached) :
    (asideForest (Program.insertDetached d l)).preorder.Perm
      (d.ids ++ (asideForest l).preorder) := by
  induction l with
  | nil => simp [Program.insertDetached, asideForest_cons, Detached.ids]
  | cons e rest ih =>
      rw [Program.insertDetached]
      split
      · simp [asideForest_cons, Detached.ids]
      · rw [asideForest_cons, asideForest_cons, Forest.preorder_cons, Forest.preorder_cons]
        refine .trans (.cons _ ?_) List.perm_middle.symm
        exact (ih.append_left _).trans (List.perm_append_comm_assoc ..)

/-- The place of an operation below the root of a tree set aside. -/
theorem locate?_asideForest {l : List Detached} {id : OpId} {parent : Option OpId} {i : Nat}
    (hl : (asideForest l).Distinct) :
    (l.findSome? fun d => d.children.locateFrom? id (some d.root) 0) = some (parent, i) ↔
      ∃ a g, parent = some a ∧ (asideForest l).below? a = some g ∧ g.roots[i]? = some id := by
  induction l with
  | nil => simp [asideForest, Forest.below?]
  | cons t rest ih =>
      obtain ⟨hroot, hrest, hchildren, hdistinct, hdisj⟩ := Forest.distinct_cons.1 hl
      have hstep : ((t :: rest).findSome? fun d => d.children.locateFrom? id (some d.root) 0) =
          (t.children.locateFrom? id (some t.root) 0).or
            (rest.findSome? fun d => d.children.locateFrom? id (some d.root) 0) := by
        rw [List.findSome?_cons]
        cases t.children.locateFrom? id (some t.root) 0 <;> rfl
      rw [hstep, Option.or_eq_some_iff,
        Forest.locateFrom?_eq_some_iff hchildren, ih hdistinct]
      constructor
      · rintro ((⟨rfl, -, hid⟩ | ⟨a, g, rfl, ha, hid⟩) | ⟨-, a, g, rfl, ha, hid⟩)
        · exact ⟨t.root, t.children, rfl, by rw [asideForest_cons, Forest.below?, if_pos rfl], hid⟩
        · have hmem := Forest.mem_preorder_of_below? ha
          exact ⟨a, g, rfl, by
            rw [asideForest_cons, Forest.below?, if_neg (by rintro rfl; exact hroot hmem), ha,
              Option.some_or], hid⟩
        · have hmem := Forest.mem_preorder_of_below? ha
          exact ⟨a, g, rfl, by
            rw [asideForest_cons, Forest.below?, if_neg (by rintro rfl; exact hrest hmem),
              Forest.below?_eq_none_iff.2 fun h => hdisj a h hmem, Option.none_or, ha], hid⟩
      · rintro ⟨a, g, rfl, ha, hid⟩
        have hmem := Forest.mem_preorder_of_mem_roots (List.mem_of_getElem? hid)
        rw [asideForest_cons, Forest.below?] at ha
        split at ha
        · rename_i heq
          cases ha
          exact .inl (.inl ⟨by rw [heq], Nat.zero_le _, hid⟩)
        · rcases Option.or_eq_some_iff.1 ha with ha | ⟨-, ha⟩
          · exact .inl (.inr ⟨a, g, rfl, ha, hid⟩)
          · refine .inr ⟨Forest.locateFrom?_eq_none (fun h => ?_) _ _, a, g, rfl, ha, hid⟩
            exact hdisj id h ((hdistinct.below ha).2.2 id hmem)

namespace Program

variable {p q : Program} {id a x : OpId} {parent : Option OpId}

/-- The body of a program and behind it the trees set aside. -/
def whole (p : Program) : Forest OpId :=
  p.body ++ asideForest p.detached

/-- A program in which every operation has one place at most, and was created. -/
def Tree (p : Program) : Prop :=
  p.whole.Bounded p.slots.size

/-- The operations of a program are those of the body and then those set aside. -/
theorem preorder_whole (p : Program) :
    p.whole.preorder = p.walk ++ (asideForest p.detached).preorder :=
  Forest.preorder_append _ _

/-- What is below an operation is looked up in the whole of the program. -/
theorem below_eq (p : Program) (id : OpId) : p.below id = (p.whole.below? id).getD .nil := by
  rw [below, whole, Forest.below?_append, below?_asideForest]

/-- What is below an operation in the whole of the program is what is below it. -/
theorem below_of_whole {g : Forest OpId} (h : p.whole.below? id = some g) : p.below id = g := by
  rw [below_eq, h, Option.getD_some]

/-- What is below an operation without a place is nothing. -/
theorem below_of_notMem (h : id ∉ p.whole.preorder) : p.below id = .nil := by
  rw [below_eq, Forest.below?_eq_none_iff.2 h, Option.getD_none]

/-- An operation of the body is part of the program. -/
theorem mem_whole_of_mem_walk (h : id ∈ p.walk) : id ∈ p.whole.preorder := by
  rw [preorder_whole]
  exact List.mem_append_left _ h

/-- A program without trees set aside is a tree when its body is one. -/
theorem WellFormed.tree (hp : p.WellFormed) (h : p.detached = []) : p.Tree := by
  have hwhole : p.whole = p.body := by rw [whole, h, asideForest, Forest.append_nil]
  exact ⟨hwhole ▸ hp.distinct, hwhole ▸ hp.created⟩

namespace Tree

/-- No operation is twice in the body. -/
theorem distinct_body (hp : p.Tree) : p.body.Distinct := by
  have := hp.distinct
  rw [Forest.Distinct, preorder_whole, List.nodup_append] at this
  exact this.1

/-- No operation is twice in the trees set aside. -/
theorem distinct_aside (hp : p.Tree) : (asideForest p.detached).Distinct := by
  have := hp.distinct
  rw [Forest.Distinct, preorder_whole, List.nodup_append] at this
  exact this.2.1

/-- A tree is sound. -/
theorem sound (hp : p.Tree) : p.Sound where
  distinct := hp.distinct_body
  created id hid := hp.lt id (mem_whole_of_mem_walk hid)
  aside t ht id hid := by
    have hmem : id ∈ (asideForest p.detached).preorder := mem_asideForest.2 ⟨t, ht, hid⟩
    refine ⟨hp.lt id (by rw [preorder_whole]; exact List.mem_append_right _ hmem), fun hwalk => ?_⟩
    have := hp.distinct
    rw [Forest.Distinct, preorder_whole, List.nodup_append] at this
    exact this.2.2 id hwalk id hmem rfl

/-! ### Edits -/

/-- A change of an operation leaves a tree. -/
theorem modify (hp : p.Tree) (id : OpId) (f : Operation → Operation) : (p.modify id f).Tree := by
  rw [Tree, size_modify]
  exact hp

/-- A change of what is below an operation is one in the whole of the program. -/
theorem whole_updateBlock (hp : p.Tree) (k : Forest OpId → Forest OpId) :
    (p.updateBlock (some id) k).whole = p.whole.update id k := by
  rw [whole, whole, Forest.update_append hp.distinct, ← asideForest_update hp.distinct_aside]
  rfl

/-- A removal is one from the whole of the program. -/
theorem whole_remove (hp : p.Tree) (id : OpId) : (p.remove id).whole = p.whole.remove id := by
  rw [whole, whole, Forest.remove_append hp.distinct, ← asideForest_remove hp.distinct_aside]
  rfl

/-- A creation below an operation is one in the whole of the program. -/
theorem whole_insertAt (hp : p.Tree) (i : Nat) (op : Operation) :
    (p.insertAt (some a) i op).2.whole = p.whole.update a (·.insertAt i p.slots.size .nil) := by
  have hpushed : ({ p with slots := p.slots.push { op } } : Program).Tree :=
    ⟨hp.distinct, fun b hb => by
      rw [Array.size_push]
      exact Nat.lt_succ_of_lt (hp.lt b hb)⟩
  exact hpushed.whole_updateBlock _

/-- A new operation has a place of its own, if it has one. -/
theorem insertAt (hp : p.Tree) (parent : Option OpId) (i : Nat) (op : Operation) :
    (p.insertAt parent i op).2.Tree := by
  have hnew : p.slots.size ∉ p.whole.preorder := fun h => Nat.lt_irrefl _ (hp.lt _ h)
  have hbound : (Forest.cons p.slots.size .nil p.whole).Bounded (p.slots.size + 1) := by
    refine ⟨Forest.distinct_cons.2 ⟨by simp, hnew, Forest.distinct_nil, hp.distinct, by simp⟩,
      fun a ha => ?_⟩
    rcases List.mem_cons.1 ha with rfl | ha
    · exact Nat.lt_succ_self _
    · exact Nat.lt_succ_of_lt (hp.lt a ha)
  rw [Tree, size_insertAt]
  refine hbound.of_subperm ?_
  cases parent with
  | none =>
      obtain ⟨A, B, hbody, hins⟩ := Forest.preorder_insertAt p.body i p.slots.size .nil
      rw [preorder_whole, walk, body_insertAt_none, hins, Forest.preorder_cons, preorder_whole,
        walk, hbody]
      simp only [Forest.preorder_nil, List.nil_append, List.append_assoc]
      exact List.perm_middle.subperm
  | some a =>
      rw [hp.whole_insertAt]
      by_cases ha : a ∈ p.whole.preorder
      · obtain ⟨g, hg⟩ := Forest.mem_preorder_iff.1 ha
        obtain ⟨A, B, hfl, hins⟩ := Forest.preorder_update_insertAt hp.distinct hg i p.slots.size
        rw [hins, Forest.preorder_cons, hfl]
        exact List.perm_middle.subperm
      · rw [Forest.update_eq_self ha]
        exact (List.sublist_cons_self _ _).subperm

/-- A tree that is cut out, before what is left. -/
theorem cut (hp : p.Tree) (hid : id < p.slots.size) :
    (Forest.cons id (p.below id) (p.whole.remove id)).Bounded p.slots.size := by
  by_cases hmem : id ∈ p.whole.preorder
  · obtain ⟨g, hg⟩ := Forest.mem_preorder_iff.1 hmem
    obtain ⟨A, B, hfl, -, hrem⟩ := Forest.exists_split hp.distinct hg
    refine hp.of_subperm (List.Perm.subperm ?_)
    rw [Forest.preorder_cons, below_of_whole hg, hrem, hfl]
    exact .trans (.cons _ (List.perm_append_comm_assoc ..)) List.perm_middle.symm
  · rw [below_of_notMem hmem, Forest.remove_eq_self hmem]
    refine ⟨Forest.distinct_cons.2 ⟨by simp, hmem, Forest.distinct_nil, hp.distinct, by simp⟩,
      fun a ha => ?_⟩
    rcases List.mem_cons.1 ha with rfl | ha
    · exact hid
    · exact hp.lt a ha

/-- A tree that is erased is set aside before what is left. -/
theorem preorder_whole_erase (hp : p.Tree) (id : OpId) : (p.erase id).whole.preorder.Perm
    (Forest.cons id (p.below id) (p.whole.remove id)).preorder := by
  have haside : (asideForest (p.erase id).detached).preorder.Perm
      (id :: ((p.below id).preorder ++ (asideForest (p.remove id).detached).preorder)) :=
    preorder_insertDetached _ _
  rw [preorder_whole, Forest.preorder_cons, ← hp.whole_remove, preorder_whole]
  refine (haside.append_left _).trans (List.perm_middle.trans (.cons _ ?_))
  exact List.perm_append_comm_assoc ..

/-- An erasure leaves a tree. -/
theorem erase (hp : p.Tree) (hid : id < p.slots.size) : (p.erase id).Tree := by
  rw [Tree, size_erase]
  exact (hp.cut hid).of_subperm (hp.preorder_whole_erase id).subperm

/-- A removal leaves a tree. -/
theorem remove (hp : p.Tree) (hid : id < p.slots.size) : (p.remove id).Tree := by
  rw [Tree, hp.whole_remove]
  exact (hp.cut hid).of_subperm (by
    rw [Forest.preorder_cons]
    exact ((List.sublist_append_right _ _).trans (List.sublist_cons_self _ _)).subperm)

/-- A move leaves a tree. -/
theorem moveTo (hp : p.Tree) (hid : id < p.slots.size) (parent : Option OpId) :
    (p.moveTo id parent).Tree := by
  have hsize : (p.moveTo id parent).slots.size = p.slots.size := by
    cases parent with
    | none => rfl
    | some a => exact size_moveTo p id a
  have hcut := hp.cut hid
  have hremove := hp.remove hid
  rw [Tree, hsize]
  refine hcut.of_subperm ?_
  rw [Forest.preorder_cons, ← hp.whole_remove]
  cases parent with
  | none =>
      refine List.Perm.subperm ?_
      rw [preorder_whole, preorder_whole]
      show (((p.remove id).body ++ Forest.single id (p.below id)).preorder ++
        (asideForest (p.remove id).detached).preorder).Perm _
      rw [Forest.preorder_append, Forest.single, Forest.preorder_cons, Forest.preorder_nil,
        List.append_nil, List.append_assoc]
      exact List.perm_middle.trans (.cons _ (List.perm_append_comm_assoc ..))
  | some a =>
      rw [Program.moveTo, hremove.whole_updateBlock]
      by_cases ha : a ∈ (p.remove id).whole.preorder
      · obtain ⟨g, hg⟩ := Forest.mem_preorder_iff.1 ha
        obtain ⟨A, B, hfl, hup, -⟩ := Forest.exists_split hremove.distinct hg
        refine List.Perm.subperm ?_
        rw [hup, hfl, Forest.preorder_append, Forest.single, Forest.preorder_cons,
          Forest.preorder_nil, List.append_nil]
        refine List.perm_iff_count.2 fun x => ?_
        simp only [List.count_append, List.count_cons]
        omega
      · rw [Forest.update_eq_self ha]
        exact ((List.sublist_append_right _ _).trans (List.sublist_cons_self _ _)).subperm

/-! ### Links -/

/-- The child at a place is the root at this place in the forest below the parent. -/
theorem getElem?_children {i : Nat} : (p.children parent)[i]? = some id ↔
    (parent = none ∧ p.body.roots[i]? = some id) ∨
      ∃ a g, parent = some a ∧ p.whole.below? a = some g ∧ g.roots[i]? = some id := by
  cases parent with
  | none => simp [children, block]
  | some a =>
      rw [children, block, below_eq]
      rcases h : p.whole.below? a with _ | g <;> simp [h, Forest.roots]

/-- The place of an operation is where the list of the operations there has it. -/
theorem locate?_eq_some_iff (hp : p.Tree) {i : Nat} :
    p.locate? id = some (parent, i) ↔ (p.children parent)[i]? = some id := by
  have hapart : ∀ b, b ∈ (asideForest p.detached).preorder → b ∉ p.body.preorder := fun b hb h => by
    have := hp.distinct
    rw [Forest.Distinct, preorder_whole, List.nodup_append] at this
    exact this.2.2 b h b hb rfl
  rw [locate?, Option.or_eq_some_iff, Forest.locate?_eq_some_iff hp.distinct_body,
    locate?_asideForest hp.distinct_aside, getElem?_children]
  constructor
  · rintro ((h | ⟨a, g, rfl, ha, hid⟩) | ⟨-, a, g, rfl, ha, hid⟩)
    · exact .inl h
    · exact .inr ⟨a, g, rfl, by rw [whole, Forest.below?_append, ha, Option.some_or], hid⟩
    · have hbody := Forest.below?_eq_none_iff.2 (hapart a (Forest.mem_preorder_of_below? ha))
      exact .inr ⟨a, g, rfl, by rw [whole, Forest.below?_append, hbody, Option.none_or, ha], hid⟩
  · rintro (h | ⟨a, g, rfl, ha, hid⟩)
    · exact .inl (.inl h)
    · rw [whole, Forest.below?_append] at ha
      rcases Option.or_eq_some_iff.1 ha with ha | ⟨-, ha⟩
      · exact .inl (.inr ⟨a, g, rfl, ha, hid⟩)
      · have hmem := Forest.mem_preorder_of_mem_roots (List.mem_of_getElem? hid)
        have hidbody := hapart id ((hp.distinct_aside.below ha).2.2 id hmem)
        exact .inr ⟨Forest.locateFrom?_eq_none hidbody none 0, a, g, rfl, ha, hid⟩

/-- An operation names as its parent the one that lists it. -/
theorem parent?_eq (hp : p.Tree) (h : id ∈ p.children parent) : p.parent? id = parent := by
  obtain ⟨i, hi⟩ := List.getElem?_of_mem h
  rw [parent?, hp.locate?_eq_some_iff.2 hi]

/-- No operation is listed twice by its parent. -/
theorem nodup_children (hp : p.Tree) (parent : Option OpId) : (p.children parent).Nodup := by
  cases parent with
  | none => exact hp.distinct_body.nodup_roots
  | some a =>
      rw [children, block, below_eq]
      rcases h : p.whole.below? a with _ | g
      · exact List.nodup_nil
      · exact (hp.distinct.below h).1.nodup_roots

/-- No operation is below itself. -/
theorem notMem_walkIn_self (hp : p.Tree) (id : OpId) : id ∉ p.walkIn id := by
  rw [walkIn, below_eq]
  rcases h : p.whole.below? id with _ | g
  · simp
  · exact (hp.distinct.below h).2.1

/-- What is below an operation that is below another is below this one too. -/
theorem walkIn_trans (hp : p.Tree) {a b c : OpId} (hb : b ∈ p.walkIn a) (hc : c ∈ p.walkIn b) :
    c ∈ p.walkIn a := by
  rw [walkIn, below_eq] at hb ⊢
  rcases ha : p.whole.below? a with _ | g
  · rw [ha] at hb
    cases hb
  · rw [ha, Option.getD_some] at hb
    obtain ⟨h, hh⟩ := Forest.mem_preorder_iff.1 hb
    rw [walkIn, below_of_whole (Forest.below?_trans hp.distinct ha hh)] at hc
    exact ((hp.distinct.below ha).1.below hh).2.2 c hc

/-- No chain of parents leads from an operation back to it. -/
theorem not_ancestor (hp : p.Tree) (id : OpId) :
    ¬ Relation.TransGen (fun a b => b ∈ p.children (some a)) id id := fun h => by
  have hbelow : ∀ b, Relation.TransGen (fun a b => b ∈ p.children (some a)) id b →
      b ∈ p.walkIn id := fun b hb => by
    induction hb with
    | single h => exact mem_walkIn_of_mem_children h
    | tail _ h ih => exact hp.walkIn_trans ih (mem_walkIn_of_mem_children h)
  exact hp.notMem_walkIn_self id (hbelow id h)

end Tree

end Program

end TileFlow
