import TileFlow.Proofs.Forest

/-!
# Edits of forests

Forests whose labels are distinct, and what an edit at one label does to the rest. Two views
describe an edit: the pre-order list of the labels, of which the tree at a label is one interval,
and the list of the trees at the top.

## Main results

* `Forest.exists_split`: the interval of a label, and what replaces it after an edit.
* `Forest.below?_trans`, `Forest.below?_update`, `Forest.below?_remove`, `Forest.below?_insertAt`:
  the forests below other labels.
* `Forest.mem_trees_update`, `Forest.mem_trees_remove`, `Forest.mem_trees_insertAt`: the trees at
  the top.
* `Forest.remove_prune`: a removal after a pruning is a pruning.
-/

namespace TileFlow.Forest

variable {α β : Type}

/-! ### Distinct labels -/

/-- No label occurs twice. -/
def Distinct (f : Forest α) : Prop :=
  f.preorder.Nodup

/-- The labels of a forest are distinct when those of its parts are, and the parts share none. -/
theorem distinct_cons {a : α} {c r : Forest α} :
    (cons a c r).Distinct ↔ a ∉ c.preorder ∧ a ∉ r.preorder ∧ c.Distinct ∧ r.Distinct ∧
      ∀ x ∈ c.preorder, x ∉ r.preorder := by
  rw [Distinct, preorder_cons, List.nodup_cons, List.mem_append, not_or, List.nodup_append]
  constructor
  · rintro ⟨⟨hc, hr⟩, hcd, hrd, hdisj⟩
    exact ⟨hc, hr, hcd, hrd, fun x hx hx' => hdisj x hx x hx' rfl⟩
  · rintro ⟨hc, hr, hcd, hrd, hdisj⟩
    exact ⟨⟨hc, hr⟩, hcd, hrd, fun x hx y hy heq => hdisj x hx (heq ▸ hy)⟩

theorem distinct_nil : (nil : Forest α).Distinct := List.nodup_nil

/-! ### The trees at the top -/

/-- The trees of a forest, as its top labels with the forests below them. -/
def trees : Forest α → List (α × Forest α)
  | nil => []
  | cons a children rest => (a, children) :: rest.trees

@[simp] theorem trees_nil : (nil : Forest α).trees = [] := rfl

@[simp] theorem trees_cons (a : α) (c r : Forest α) : (cons a c r).trees = (a, c) :: r.trees := rfl

/-- The roots are the labels of the trees. -/
theorem roots_eq (f : Forest α) : f.roots = f.trees.map (·.1) := by
  induction f with
  | nil => rfl
  | cons a c r _ ih => rw [roots, ih, trees_cons, List.map_cons]

/-- A root is the label of a tree. -/
theorem mem_roots {f : Forest α} {a : α} : a ∈ f.roots ↔ ∃ c, (a, c) ∈ f.trees := by
  rw [roots_eq, List.mem_map]
  constructor
  · rintro ⟨⟨b, c⟩, h, rfl⟩
    exact ⟨c, h⟩
  · rintro ⟨c, h⟩
    exact ⟨(a, c), h, rfl⟩

/-- The labels of a tree at the top are labels of the forest. -/
theorem mem_preorder_of_mem_trees {f : Forest α} {a : α} {g : Forest α} (h : (a, g) ∈ f.trees) :
    a ∈ f.preorder ∧ ∀ x ∈ g.preorder, x ∈ f.preorder := by
  induction f with
  | nil => cases h
  | cons b c r _ ih =>
      rw [preorder_cons]
      rcases List.mem_cons.1 h with heq | h
      · cases heq
        exact ⟨by simp, fun x hx => by simp [hx]⟩
      · obtain ⟨ha, hg⟩ := ih h
        exact ⟨by simp [ha], fun x hx => by simp [hg x hx]⟩

/-- Every label is the one at the top of a tree, or below it. -/
theorem mem_preorder_iff_trees {f : Forest α} {x : α} :
    x ∈ f.preorder ↔ ∃ t ∈ f.trees, x = t.1 ∨ x ∈ t.2.preorder := by
  induction f with
  | nil => simp
  | cons a c r _ ih =>
      rw [preorder_cons, List.mem_cons, List.mem_append, ih, trees_cons]
      simp only [List.mem_cons, exists_eq_or_imp, or_assoc]

/-- The labels are those at the top, each with the ones below it. -/
theorem preorder_eq_flatMap (f : Forest α) :
    f.preorder = f.trees.flatMap fun t => t.1 :: t.2.preorder := by
  induction f with
  | nil => rfl
  | cons a c r _ ih => rw [preorder_cons, ih, trees_cons, List.flatMap_cons, List.cons_append]

/-- A root is one of the labels. -/
theorem mem_preorder_of_mem_roots {f : Forest α} {a : α} (h : a ∈ f.roots) : a ∈ f.preorder := by
  obtain ⟨c, hc⟩ := mem_roots.1 h
  exact (mem_preorder_of_mem_trees hc).1

/-- The roots stand among the labels in their order. -/
theorem roots_sublist (f : Forest α) : f.roots.Sublist f.preorder := by
  induction f with
  | nil => exact .slnil
  | cons a c r _ ih =>
      rw [roots, preorder_cons]
      exact .cons_cons _ (ih.trans (List.sublist_append_right _ _))

/-- In a forest with distinct labels no root occurs twice. -/
theorem Distinct.nodup_roots {f : Forest α} (hf : f.Distinct) : f.roots.Nodup :=
  hf.sublist f.roots_sublist

/-- A label at the top is below no other one. -/
theorem Distinct.root_not_below {f g : Forest α} {a b : α} (hf : f.Distinct) (h : (a, g) ∈ f.trees)
    (hb : b ∈ f.roots) : b ∉ g.preorder := by
  induction f with
  | nil => cases h
  | cons e c r _ ihr =>
      obtain ⟨hec, her, -, hr, hdisj⟩ := distinct_cons.1 hf
      rw [roots, List.mem_cons] at hb
      rcases List.mem_cons.1 h with heq | hrest
      · cases heq
        rcases hb with rfl | hb
        · exact hec
        · exact fun hbc => hdisj b hbc (mem_preorder_of_mem_roots hb)
      · rcases hb with rfl | hb
        · exact fun hbg => her ((mem_preorder_of_mem_trees hrest).2 b hbg)
        · exact ihr hr hrest hb

/-- The trees at the top have no label in common. -/
theorem Distinct.trees_disjoint {f g h : Forest α} {a b x : α} (hf : f.Distinct)
    (hg : (a, g) ∈ f.trees) (hh : (b, h) ∈ f.trees) (hab : a ≠ b) (hx : x ∈ g.preorder) :
    x ∉ h.preorder := by
  induction f with
  | nil => cases hg
  | cons e c r _ ihr =>
      obtain ⟨-, -, -, hr, hdisj⟩ := distinct_cons.1 hf
      intro hxh
      rcases List.mem_cons.1 hg with heq | hgr <;> rcases List.mem_cons.1 hh with heq' | hhr
      · cases heq
        cases heq'
        exact hab rfl
      · cases heq
        exact hdisj x hx ((mem_preorder_of_mem_trees hhr).2 x hxh)
      · cases heq'
        exact hdisj x hxh ((mem_preorder_of_mem_trees hgr).2 x hx)
      · exact ihr hr hgr hhr hxh

/-- A label is at the top of one tree only. -/
theorem Distinct.eq_of_mem_trees {f g h : Forest α} {a : α} (hf : f.Distinct)
    (hg : (a, g) ∈ f.trees) (hh : (a, h) ∈ f.trees) : g = h := by
  induction f with
  | nil => cases hg
  | cons e c r _ ihr =>
      obtain ⟨-, her, -, hr, -⟩ := distinct_cons.1 hf
      rcases List.mem_cons.1 hg with heq | hgr <;> rcases List.mem_cons.1 hh with heq' | hhr
      · cases heq
        cases heq'
        rfl
      · cases heq
        exact absurd (mem_preorder_of_mem_trees hhr).1 her
      · cases heq'
        exact absurd (mem_preorder_of_mem_trees hgr).1 her
      · exact ihr hr hgr hhr

/-- A forest is made of its trees. -/
theorem trees_inj {f g : Forest α} (h : f.trees = g.trees) : f = g := by
  induction f generalizing g with
  | nil => cases g with
    | nil => rfl
    | cons => cases h
  | cons a c r _ ih => cases g with
    | nil => cases h
    | cons b c' r' =>
        obtain ⟨heq, hrest⟩ := List.cons.inj h
        cases heq
        rw [ih hrest]

/-- The trees of two forests side by side are those of the one and then those of the other. -/
@[simp] theorem trees_append (f g : Forest α) : (f ++ g).trees = f.trees ++ g.trees := by
  show (f.append g).trees = _
  induction f with
  | nil => rfl
  | cons a c r _ ih => rw [append, trees_cons, ih, trees_cons, List.cons_append]

/-- The labels of two forests side by side are those of the one and then those of the other. -/
@[simp] theorem preorder_append (f g : Forest α) :
    (f ++ g).preorder = f.preorder ++ g.preorder := by
  show (f.append g).preorder = _
  induction f with
  | nil => rfl
  | cons a c r _ ih =>
      rw [append, preorder_cons, ih, preorder_cons, List.cons_append, List.append_assoc]

/-- The trees of a mapped forest are the mapped trees. -/
@[simp] theorem trees_map (k : α → β) (f : Forest α) :
    (f.map k).trees = f.trees.map fun t => (k t.1, t.2.map k) := by
  induction f with
  | nil => rfl
  | cons a c r _ ih => rw [map, trees_cons, ih, trees_cons, List.map_cons]

/-- The roots of a mapped forest are the mapped roots. -/
@[simp] theorem roots_map (k : α → β) (f : Forest α) : (f.map k).roots = f.roots.map k := by
  simp [roots_eq, Function.comp_def]

@[simp] theorem nil_append (f : Forest α) : nil ++ f = f := rfl

@[simp] theorem append_nil (f : Forest α) : f ++ nil = f :=
  trees_inj (by simp)

/-- It makes no difference which of three forests are put side by side first. -/
theorem append_assoc (f g h : Forest α) : f ++ g ++ h = f ++ (g ++ h) :=
  trees_inj (by simp)

/-- Forests side by side are mapped one by one. -/
@[simp] theorem map_append (k : α → β) (f g : Forest α) : (f ++ g).map k = f.map k ++ g.map k :=
  trees_inj (by simp)

/-! ### Insertions -/

/-- A tree after an insertion is the new one or one of the old. -/
theorem mem_trees_insertAt {f c : Forest α} {i : Nat} {a : α} {t : α × Forest α} :
    t ∈ (f.insertAt i a c).trees ↔ t = (a, c) ∨ t ∈ f.trees := by
  induction f generalizing i with
  | nil => simp [insertAt, single]
  | cons b d r _ ih =>
      cases i with
      | zero => simp [insertAt]
      | succ i =>
          simp only [insertAt, trees_cons, List.mem_cons, ih]
          exact or_left_comm

/-- An insertion puts an interval of labels somewhere. -/
theorem preorder_insertAt (f : Forest α) (i : Nat) (a : α) (c : Forest α) :
    ∃ A B, f.preorder = A ++ B ∧ (f.insertAt i a c).preorder = A ++ a :: (c.preorder ++ B) := by
  induction f generalizing i with
  | nil => exact ⟨[], [], rfl, by simp [insertAt, single]⟩
  | cons b d r _ ih =>
      cases i with
      | zero => exact ⟨[], (cons b d r).preorder, rfl, by simp [insertAt]⟩
      | succ i =>
          obtain ⟨A, B, hf, hins⟩ := ih i
          exact ⟨b :: (d.preorder ++ A), B, by simp [hf], by simp [insertAt, hins]⟩

/-- A label after an insertion is one of the new tree or one of the old. -/
theorem mem_preorder_insertAt {f c : Forest α} {i : Nat} {a x : α} :
    x ∈ (f.insertAt i a c).preorder ↔ x = a ∨ x ∈ c.preorder ∨ x ∈ f.preorder := by
  obtain ⟨A, B, hf, hins⟩ := preorder_insertAt f i a c
  rw [hf, hins]
  simp only [List.mem_append, List.mem_cons]
  grind

/-- New labels may be put anywhere. -/
theorem Distinct.of_interval {f c g : Forest α} {a : α} {A B : List α} (hf : f.Distinct)
    (hc : c.Distinct) (ha : a ∉ f.preorder) (hac : a ∉ c.preorder)
    (hdisj : ∀ x ∈ c.preorder, x ∉ f.preorder) (hfl : f.preorder = A ++ B)
    (hg : g.preorder = A ++ a :: (c.preorder ++ B)) : g.Distinct := by
  have hperm : g.preorder.Perm ((cons a c f).preorder) := by
    rw [hg, preorder_cons, hfl]
    refine List.perm_middle.trans (.cons _ ?_)
    rw [← List.append_assoc, ← List.append_assoc]
    exact List.perm_append_comm.append_right _
  rw [Distinct, hperm.nodup_iff]
  exact distinct_cons.2 ⟨hac, ha, hc, hf, hdisj⟩

/-- Labels stay distinct when the tree that is inserted has others. -/
theorem Distinct.insertAt {f c : Forest α} {a : α} (hf : f.Distinct) (hc : c.Distinct)
    (ha : a ∉ f.preorder) (hac : a ∉ c.preorder) (hdisj : ∀ x ∈ c.preorder, x ∉ f.preorder)
    (i : Nat) : (f.insertAt i a c).Distinct := by
  obtain ⟨A, B, hfl, hins⟩ := preorder_insertAt f i a c
  exact hf.of_interval hc ha hac hdisj hfl hins

/-- At the end a tree is inserted by appending it. -/
theorem insertAt_length_roots (f : Forest α) (a : α) (c : Forest α) :
    f.insertAt f.roots.length a c = f ++ single a c := by
  induction f with
  | nil => rfl
  | cons b d r _ ih =>
      show cons b d (r.insertAt r.roots.length a c) = cons b d (r ++ single a c)
      rw [ih]

/-! ### Pruning -/

/-- The forest without the trees whose root has a property, at any depth. -/
def prune (P : α → Bool) : Forest α → Forest α
  | nil => nil
  | cons a c r => if P a then r.prune P else cons a (c.prune P) (r.prune P)

theorem prune_cons (P : α → Bool) (a : α) (c r : Forest α) :
    (cons a c r).prune P = if P a then r.prune P else cons a (c.prune P) (r.prune P) := rfl

/-- Only what a predicate says of the labels of a forest matters for its pruning. -/
theorem prune_congr {f : Forest α} {P Q : α → Bool} (h : ∀ a ∈ f.preorder, P a = Q a) :
    f.prune P = f.prune Q := by
  induction f with
  | nil => rfl
  | cons a c r ihc ihr =>
      simp only [preorder_cons, List.mem_cons, List.mem_append] at h
      rw [prune_cons, prune_cons, h a (.inl rfl), ihc fun b hb => h b (.inr (.inl hb)),
        ihr fun b hb => h b (.inr (.inr hb))]

/-- Nothing is pruned where no label is chosen. -/
theorem prune_false (f : Forest α) : (f.prune fun _ => false) = f := by
  induction f with
  | nil => rfl
  | cons a c r ihc ihr => rw [prune_cons, if_neg (by simp), ihc, ihr]

/-- Pruning twice is pruning once by both predicates. -/
theorem prune_prune (P Q : α → Bool) (f : Forest α) :
    (f.prune P).prune Q = f.prune fun a => P a || Q a := by
  induction f with
  | nil => rfl
  | cons a c r ihc ihr =>
      rw [prune_cons, prune_cons]
      by_cases hP : P a = true
      · simp only [hP, Bool.true_or, if_true, ihr]
      · simp only [hP, Bool.false_or, Bool.false_eq_true, if_false]
        rw [prune_cons, ihc, ihr]

/-- A label that is left was there before, and was not chosen. -/
theorem mem_preorder_of_prune {f : Forest α} {P : α → Bool} {a : α}
    (h : a ∈ (f.prune P).preorder) : a ∈ f.preorder ∧ P a = false := by
  induction f with
  | nil => cases h
  | cons b c r ihc ihr =>
      rw [prune_cons] at h
      rw [preorder_cons, List.mem_cons, List.mem_append]
      split at h
      · obtain ⟨hmem, hP⟩ := ihr h
        exact ⟨.inr (.inr hmem), hP⟩
      · rename_i hb
        rw [preorder_cons, List.mem_cons, List.mem_append] at h
        rcases h with rfl | h | h
        · exact ⟨.inl rfl, by simpa using hb⟩
        · exact ⟨.inr (.inl (ihc h).1), (ihc h).2⟩
        · exact ⟨.inr (.inr (ihr h).1), (ihr h).2⟩

/-- The labels that are left keep their order. -/
theorem preorder_prune_sublist (P : α → Bool) (f : Forest α) :
    (f.prune P).preorder.Sublist f.preorder := by
  induction f with
  | nil => exact .slnil
  | cons a c r ihc ihr =>
      rw [prune_cons, preorder_cons]
      split
      · exact (ihr.trans (List.sublist_append_right _ _)).trans (List.sublist_cons_self _ _)
      · rw [preorder_cons]
        exact (ihc.append ihr).cons_cons a

/-- Pruning keeps labels distinct. -/
theorem Distinct.prune {f : Forest α} (hf : f.Distinct) (P : α → Bool) : (f.prune P).Distinct :=
  hf.sublist (preorder_prune_sublist P f)

/-- The trees that are left are those whose labels are not chosen, each pruned in turn. -/
theorem trees_prune (P : α → Bool) (f : Forest α) :
    (f.prune P).trees = (f.trees.filter fun t => !P t.1).map fun t => (t.1, t.2.prune P) := by
  induction f with
  | nil => rfl
  | cons a c r _ ihr =>
      rw [prune_cons, trees_cons]
      split
      · rename_i ha
        rw [List.filter_cons_of_neg (by simp [ha]), ihr]
      · rename_i ha
        rw [List.filter_cons_of_pos (by simp [ha]), List.map_cons, trees_cons, ihr]

/-! ### The forest below a label -/

variable [DecidableEq α]

/-- Only a label that does not occur has no forest below it. -/
theorem below?_eq_none_iff {f : Forest α} {a : α} : f.below? a = none ↔ a ∉ f.preorder := by
  induction f with
  | nil => simp [below?]
  | cons b c r ihc ihr =>
      rw [below?, preorder_cons]
      split
      · rename_i h
        simp [h]
      · rename_i h
        simp [ihc, ihr, Ne.symm h]

/-- Exactly the labels that occur have a forest below them. -/
theorem mem_preorder_iff {f : Forest α} {a : α} : a ∈ f.preorder ↔ ∃ g, f.below? a = some g := by
  rcases h : f.below? a with _ | g
  · simp [below?_eq_none_iff.1 h]
  · refine ⟨fun _ => ⟨g, rfl⟩, fun _ => ?_⟩
    exact Classical.byContradiction fun hnot => by simp [below?_eq_none_iff.2 hnot] at h

/-- A label with a forest below it occurs. -/
theorem mem_preorder_of_below? {f g : Forest α} {a : α} (h : f.below? a = some g) :
    a ∈ f.preorder :=
  mem_preorder_iff.2 ⟨g, h⟩

/-- An update at a label that does not occur changes nothing. -/
theorem update_eq_self {f : Forest α} {a : α} (ha : a ∉ f.preorder)
    (k : Forest α → Forest α) : f.update a k = f := by
  induction f with
  | nil => rfl
  | cons b c r ihc ihr =>
      simp only [preorder_cons, List.mem_cons, List.mem_append, not_or] at ha
      obtain ⟨hb, hc, hr⟩ := ha
      rw [update, if_neg (Ne.symm hb), ihc hc, ihr hr]

/-- The removal of a label that does not occur changes nothing. -/
theorem remove_eq_self {f : Forest α} {a : α} (ha : a ∉ f.preorder) : f.remove a = f := by
  induction f with
  | nil => rfl
  | cons b c r ihc ihr =>
      simp only [preorder_cons, List.mem_cons, List.mem_append, not_or] at ha
      obtain ⟨hb, hc, hr⟩ := ha
      rw [remove, if_neg (Ne.symm hb), ihc hc, ihr hr]

/-- The tree at a label is an interval of the labels. An edit below the label changes this
interval only, and the removal of the label cuts it out. -/
theorem exists_split {f g : Forest α} {a : α} (hf : f.Distinct) (h : f.below? a = some g) :
    ∃ A B, f.preorder = A ++ a :: (g.preorder ++ B) ∧
      (∀ k, (f.update a k).preorder = A ++ a :: ((k g).preorder ++ B)) ∧
      (f.remove a).preorder = A ++ B := by
  induction f with
  | nil => cases h
  | cons b c r ihc ihr =>
      obtain ⟨hbc, hbr, hc, hr, hdisj⟩ := distinct_cons.1 hf
      rw [below?] at h
      split at h
      · rename_i hb
        cases h
        refine ⟨[], r.preorder, by simp [hb], fun k => by simp [update, hb], by simp [remove, hb]⟩
      · rename_i hb
        rcases Option.or_eq_some_iff.1 h with h | ⟨hnone, h⟩
        · obtain ⟨A, B, hfl, hup, hrem⟩ := ihc hc h
          have har : a ∉ r.preorder := hdisj a (mem_preorder_of_below? h)
          refine ⟨b :: A, B ++ r.preorder, by simp [hfl], fun k => ?_, ?_⟩
          · simp [update, hb, hup, update_eq_self har]
          · simp [remove, hb, hrem, remove_eq_self har]
        · obtain ⟨A, B, hfl, hup, hrem⟩ := ihr hr h
          have hac : a ∉ c.preorder := below?_eq_none_iff.1 hnone
          refine ⟨b :: (c.preorder ++ A), B, by simp [hfl], fun k => ?_, ?_⟩
          · simp [update, hb, hup, update_eq_self hac]
          · simp [remove, hb, hrem, remove_eq_self hac]

/-- The labels below a label are distinct labels of the forest, and differ from it. -/
theorem Distinct.below {f g : Forest α} {a : α} (hf : f.Distinct) (h : f.below? a = some g) :
    g.Distinct ∧ a ∉ g.preorder ∧ ∀ x ∈ g.preorder, x ∈ f.preorder := by
  obtain ⟨A, B, hfl, -, -⟩ := exists_split hf h
  rw [Distinct, hfl, List.nodup_append, List.nodup_cons, List.nodup_append] at hf
  obtain ⟨-, ⟨ha, hg, -⟩, -⟩ := hf
  exact ⟨hg, fun hmem => ha (List.mem_append_left _ hmem), fun x hx => by simp [hfl, hx]⟩

/-- Below the root of a tree is the forest of this tree. -/
theorem below?_of_mem_trees {f g : Forest α} {a : α} (hf : f.Distinct) (h : (a, g) ∈ f.trees) :
    f.below? a = some g := by
  induction f with
  | nil => cases h
  | cons b c r _ ihr =>
      obtain ⟨-, hbr, -, hr, hdisj⟩ := distinct_cons.1 hf
      rw [below?]
      rcases List.mem_cons.1 h with heq | h
      · cases heq
        rw [if_pos rfl]
      · have ha := (mem_preorder_of_mem_trees h).1
        have hac : a ∉ c.preorder := fun hac => hdisj a hac ha
        rw [if_neg (by rintro rfl; exact hbr ha), below?_eq_none_iff.2 hac, Option.none_or,
          ihr hr h]

/-- What is below a label that is below another is below it in the whole forest too. -/
theorem below?_trans {f g h : Forest α} {a b : α} (hf : f.Distinct) (ha : f.below? a = some g)
    (hb : g.below? b = some h) : f.below? b = some h := by
  induction f with
  | nil => cases ha
  | cons e c r ihc ihr =>
      obtain ⟨hec, her, hc, hr, hdisj⟩ := distinct_cons.1 hf
      have hbg := mem_preorder_of_below? hb
      rw [below?] at ha ⊢
      split at ha
      · cases ha
        rw [if_neg (by rintro rfl; exact hec hbg), hb, Option.some_or]
      · rcases Option.or_eq_some_iff.1 ha with ha | ⟨-, ha⟩
        · have hbc := (hc.below ha).2.2 b hbg
          rw [if_neg (by rintro rfl; exact hec hbc), ihc hc ha, Option.some_or]
        · have hbr := (hr.below ha).2.2 b hbg
          rw [if_neg (by rintro rfl; exact her hbr),
            below?_eq_none_iff.2 fun hbc => hdisj b hbc hbr, Option.none_or, ihr hr ha]

/-- Trees that do not hold each other have no label in common. -/
theorem Distinct.below_disjoint {f g h : Forest α} {a b x : α} (hf : f.Distinct)
    (ha : f.below? a = some g) (hb : f.below? b = some h) (hab : a ≠ b) (hah : a ∉ h.preorder)
    (hbg : b ∉ g.preorder) (hx : x ∈ g.preorder) : x ∉ h.preorder := by
  induction f with
  | nil => cases ha
  | cons e c r ihc ihr =>
      obtain ⟨-, -, hc, hr, hdisj⟩ := distinct_cons.1 hf
      rw [below?] at ha hb
      split at ha
      · rename_i hea
        cases ha
        rw [if_neg fun heb => hab (hea.symm.trans heb)] at hb
        rcases Option.or_eq_some_iff.1 hb with hb | ⟨-, hb⟩
        · exact absurd (mem_preorder_of_below? hb) hbg
        · exact fun hxh => hdisj x hx ((hr.below hb).2.2 x hxh)
      · split at hb
        · cases hb
          rcases Option.or_eq_some_iff.1 ha with ha | ⟨-, ha⟩
          · exact absurd (mem_preorder_of_below? ha) hah
          · exact fun hxh => hdisj x hxh ((hr.below ha).2.2 x hx)
        · rcases Option.or_eq_some_iff.1 ha with ha | ⟨-, ha⟩ <;>
            rcases Option.or_eq_some_iff.1 hb with hb | ⟨-, hb⟩
          · exact ihc hc ha hb
          · exact fun hxh => hdisj x ((hc.below ha).2.2 x hx) ((hr.below hb).2.2 x hxh)
          · exact fun hxh => hdisj x ((hc.below hb).2.2 x hxh) ((hr.below ha).2.2 x hx)
          · exact ihr hr ha hb

/-- A label below another one is not at the top. -/
theorem Distinct.notMem_roots_of_below {f g : Forest α} {a x : α} (hf : f.Distinct)
    (h : f.below? a = some g) (hx : x ∈ g.preorder) : x ∉ f.roots := by
  induction f with
  | nil => cases h
  | cons e c r _ ihr =>
      obtain ⟨hec, her, hc, hr, hdisj⟩ := distinct_cons.1 hf
      have hchild : x ∈ c.preorder → x ∉ (cons e c r).roots := fun hxc => by
        rw [Forest.roots, List.mem_cons, not_or]
        exact ⟨by rintro rfl; exact hec hxc,
          fun hxr => hdisj x hxc (mem_preorder_of_mem_roots hxr)⟩
      rw [below?] at h
      split at h
      · cases h
        exact hchild hx
      · rcases Option.or_eq_some_iff.1 h with h | ⟨-, h⟩
        · exact hchild ((hc.below h).2.2 x hx)
        · rw [Forest.roots, List.mem_cons, not_or]
          exact ⟨by rintro rfl; exact her ((hr.below h).2.2 x hx), ihr hr h⟩

/-! ### Updates -/

/-- Below an updated label is the updated forest. -/
theorem below?_update_self {f g : Forest α} {a : α} (h : f.below? a = some g)
    (k : Forest α → Forest α) : (f.update a k).below? a = some (k g) := by
  induction f with
  | nil => cases h
  | cons b c r ihc ihr =>
      rw [below?] at h
      rw [update]
      split at h
      · rename_i hb
        cases h
        rw [if_pos hb, below?, if_pos hb]
      · rename_i hb
        rw [if_neg hb, below?, if_neg hb]
        rcases Option.or_eq_some_iff.1 h with h | ⟨hnone, h⟩
        · rw [ihc h, Option.some_or]
        · have hac := below?_eq_none_iff.1 hnone
          rw [update_eq_self hac, hnone, Option.none_or, ihr h]

/-- An update at one label is an update in the forest below any other that is neither below the
first nor put there. -/
theorem below?_update {f h : Forest α} {a b : α} {k : Forest α → Forest α} (hf : f.Distinct)
    (hba : b ≠ a) (hb : f.below? b = some h)
    (hnot : ∀ g, f.below? a = some g → b ∉ g.preorder ∧ b ∉ (k g).preorder) :
    (f.update a k).below? b = some (h.update a k) := by
  induction f with
  | nil => cases hb
  | cons e c r ihc ihr =>
      obtain ⟨hec, her, hc, hr, hdisj⟩ := distinct_cons.1 hf
      rw [update]
      split
      · rename_i he
        obtain ⟨hbc, hbk⟩ := hnot c (by rw [below?, if_pos he])
        rw [below?, he, if_neg (Ne.symm hba), below?_eq_none_iff.2 hbc, Option.none_or] at hb
        have hah : a ∉ h.preorder := fun hah => her (he ▸ (hr.below hb).2.2 a hah)
        rw [below?, he, if_neg (Ne.symm hba), below?_eq_none_iff.2 hbk, Option.none_or, hb,
          update_eq_self hah]
      · rename_i he
        rw [below?] at hb ⊢
        split at hb
        · rename_i heb
          cases hb
          rw [if_pos heb]
        · rename_i heb
          rw [if_neg heb]
          rcases Option.or_eq_some_iff.1 hb with hb | ⟨hnone, hb⟩
          · rw [ihc hc hb fun g hg => hnot g (by rw [below?, if_neg he, hg, Option.some_or]),
              Option.some_or]
          · have hbc := below?_eq_none_iff.1 hnone
            have hbu : b ∉ (c.update a k).preorder := by
              intro hbu
              rcases hca : c.below? a with _ | g
              · rw [update_eq_self (below?_eq_none_iff.1 hca)] at hbu
                exact hbc hbu
              · obtain ⟨A, B, hcl, hup, -⟩ := exists_split hc hca
                have hbk := (hnot g (by rw [below?, if_neg he, hca, Option.some_or])).2
                rw [hup] at hbu
                rw [hcl] at hbc
                simp only [List.mem_append, List.mem_cons] at hbu hbc
                grind
            rw [below?_eq_none_iff.2 hbu, Option.none_or]
            refine ihr hr hb fun g hg => hnot g ?_
            have har := mem_preorder_of_below? hg
            have hac : a ∉ c.preorder := fun hac => hdisj a hac har
            rw [below?, if_neg he, below?_eq_none_iff.2 hac, Option.none_or, hg]

/-- A label put below another one is put somewhere among the labels. -/
theorem preorder_update_insertAt {f g : Forest α} {a : α} (hf : f.Distinct)
    (h : f.below? a = some g) (i : Nat) (x : α) :
    ∃ A B, f.preorder = A ++ B ∧ (f.update a (·.insertAt i x nil)).preorder = A ++ x :: B := by
  obtain ⟨A, B, hfl, hup, -⟩ := exists_split hf h
  obtain ⟨A', B', hgl, hins⟩ := preorder_insertAt g i x nil
  refine ⟨A ++ a :: A', B' ++ B, by simp [hfl, hgl], ?_⟩
  rw [hup, hins]
  simp

/-- A leaf put below a label is the only new label. -/
theorem mem_preorder_update_insertAt {f g : Forest α} {a x y : α} (hf : f.Distinct)
    (h : f.below? a = some g) (i : Nat) :
    y ∈ (f.update a (·.insertAt i x nil)).preorder ↔ y = x ∨ y ∈ f.preorder := by
  obtain ⟨A, B, hfl, hins⟩ := preorder_update_insertAt hf h i x
  rw [hins, hfl]
  simp only [List.mem_append, List.mem_cons]
  exact or_left_comm

/-- Labels stay distinct when a new leaf is put below one of them. -/
theorem Distinct.update_insertAt {f g : Forest α} {a x : α} (hf : f.Distinct)
    (h : f.below? a = some g) (hx : x ∉ f.preorder) (i : Nat) :
    (f.update a (·.insertAt i x nil)).Distinct := by
  obtain ⟨A, B, hfl, hins⟩ := preorder_update_insertAt hf h i x
  exact hf.of_interval distinct_nil hx (by simp) (by simp) hfl (by simpa using hins)

/-- An update edits every tree at the top in its turn. -/
theorem trees_update {f : Forest α} {a : α} (hf : f.Distinct) (k : Forest α → Forest α) :
    (f.update a k).trees =
      f.trees.map fun t => (t.1, if t.1 = a then k t.2 else t.2.update a k) := by
  induction f with
  | nil => rfl
  | cons b c r _ ihr =>
      obtain ⟨-, hbr, -, hr, -⟩ := distinct_cons.1 hf
      rw [update, trees_cons, List.map_cons, ← ihr hr]
      split
      · rename_i hb
        rw [update_eq_self (hb ▸ hbr)]
        rfl
      · rfl

/-- A tree at the top stays as it is when the forest below a label outside it is changed. -/
theorem mem_trees_update {f g : Forest α} {a b : α} {k : Forest α → Forest α} (hf : f.Distinct)
    (h : (b, g) ∈ f.trees) (hba : a ≠ b) (hag : a ∉ g.preorder) :
    (b, g) ∈ (f.update a k).trees := by
  rw [trees_update hf]
  exact List.mem_map.2 ⟨(b, g), h, by rw [if_neg (Ne.symm hba), update_eq_self hag]⟩

/-- The tree at a label at the top is the one that an update changes. -/
theorem mem_trees_update_self {f g : Forest α} {a : α} {k : Forest α → Forest α} (hf : f.Distinct)
    (h : (a, g) ∈ f.trees) : (a, k g) ∈ (f.update a k).trees := by
  rw [trees_update hf]
  exact List.mem_map.2 ⟨(a, g), h, by rw [if_pos rfl]⟩

/-- An update keeps the roots. -/
@[simp] theorem roots_update (f : Forest α) (a : α) (k : Forest α → Forest α) :
    (f.update a k).roots = f.roots := by
  induction f with
  | nil => rfl
  | cons b c r _ ihr =>
      rw [update]
      split
      · rfl
      · rw [roots, ihr, roots]

/-! ### Removals -/

/-- The removal of one label is a removal in the forest below any other that is not below the
first. -/
theorem below?_remove {f h : Forest α} {a b : α} (hf : f.Distinct) (hba : b ≠ a)
    (hb : f.below? b = some h) (hnot : ∀ g, f.below? a = some g → b ∉ g.preorder) :
    (f.remove a).below? b = some (h.remove a) := by
  induction f with
  | nil => cases hb
  | cons e c r ihc ihr =>
      obtain ⟨hec, her, hc, hr, hdisj⟩ := distinct_cons.1 hf
      rw [remove]
      split
      · rename_i he
        have hbc := hnot c (by rw [below?, if_pos he])
        rw [below?, he, if_neg (Ne.symm hba), below?_eq_none_iff.2 hbc, Option.none_or] at hb
        have hah : a ∉ h.preorder := fun hah => her (he ▸ (hr.below hb).2.2 a hah)
        rw [hb, remove_eq_self hah]
      · rename_i he
        rw [below?] at hb ⊢
        split at hb
        · rename_i heb
          cases hb
          rw [if_pos heb]
        · rename_i heb
          rw [if_neg heb]
          rcases Option.or_eq_some_iff.1 hb with hb | ⟨hnone, hb⟩
          · rw [ihc hc hb fun g hg => hnot g (by rw [below?, if_neg he, hg, Option.some_or]),
              Option.some_or]
          · have hbr : b ∉ (c.remove a).preorder := by
              intro hbr
              have hbc := below?_eq_none_iff.1 hnone
              rcases hca : c.below? a with _ | g
              · rw [remove_eq_self (below?_eq_none_iff.1 hca)] at hbr
                exact hbc hbr
              · obtain ⟨A, B, hcl, -, hrem⟩ := exists_split hc hca
                rw [hrem] at hbr
                rw [hcl] at hbc
                simp only [List.mem_append, List.mem_cons] at hbr hbc
                grind
            rw [below?_eq_none_iff.2 hbr, Option.none_or]
            refine ihr hr hb fun g hg => hnot g ?_
            have har := mem_preorder_of_below? hg
            have hac : a ∉ c.preorder := fun hac => hdisj a hac har
            rw [below?, if_neg he, below?_eq_none_iff.2 hac, Option.none_or, hg]

/-- A removal edits every tree at the top in its turn, and drops the one at the label. -/
theorem trees_remove {f : Forest α} {a : α} (hf : f.Distinct) :
    (f.remove a).trees =
      (f.trees.filter fun t => decide (t.1 ≠ a)).map fun t => (t.1, t.2.remove a) := by
  induction f with
  | nil => rfl
  | cons b c r _ ihr =>
      obtain ⟨-, hbr, -, hr, -⟩ := distinct_cons.1 hf
      rw [remove, trees_cons]
      split
      · rename_i hb
        rw [List.filter_cons_of_neg (by simp [hb]), ← ihr hr, remove_eq_self (hb ▸ hbr)]
      · rename_i hb
        rw [List.filter_cons_of_pos (by simp [hb]), List.map_cons, trees_cons, ihr hr]

/-- A tree at the top stays as it is when a label outside it is removed. -/
theorem mem_trees_remove {f g : Forest α} {a b : α} (hf : f.Distinct) (h : (b, g) ∈ f.trees)
    (hba : a ≠ b) (hag : a ∉ g.preorder) : (b, g) ∈ (f.remove a).trees := by
  rw [trees_remove hf]
  refine List.mem_map.2 ⟨(b, g), ?_, by rw [remove_eq_self hag]⟩
  exact List.mem_filter.2 ⟨h, by simpa using Ne.symm hba⟩

/-- The roots after a removal are the others, in their order. -/
@[simp] theorem roots_remove {f : Forest α} {a : α} (hf : f.Distinct) :
    (f.remove a).roots = f.roots.filter fun b => decide (b ≠ a) := by
  rw [roots_eq, trees_remove hf, roots_eq, List.filter_map, List.map_map, Function.comp_def,
    Function.comp_def]

/-- A removal keeps labels distinct. -/
theorem Distinct.remove {f : Forest α} (hf : f.Distinct) (a : α) : (f.remove a).Distinct := by
  rcases h : f.below? a with _ | g
  · rwa [remove_eq_self (below?_eq_none_iff.1 h)]
  · obtain ⟨A, B, hfl, -, hrem⟩ := exists_split hf h
    rw [Distinct, hrem]
    rw [Distinct, hfl] at hf
    exact hf.sublist (.append_left ((List.sublist_append_right _ _).trans
      (List.sublist_cons_self _ _)) _)

/-- A removal takes a label and what is below it, and nothing else. -/
theorem mem_preorder_remove {f g : Forest α} {a x : α} (hf : f.Distinct)
    (h : f.below? a = some g) :
    x ∈ (f.remove a).preorder ↔ x ∈ f.preorder ∧ x ≠ a ∧ x ∉ g.preorder := by
  obtain ⟨A, B, hfl, -, hrem⟩ := exists_split hf h
  rw [Distinct, hfl, List.nodup_append, List.nodup_cons, List.nodup_append] at hf
  rw [hrem, hfl]
  simp only [List.mem_append, List.mem_cons] at hf ⊢
  grind

/-- A label after a removal was there before. -/
theorem mem_preorder_of_remove {f : Forest α} {a x : α} (hf : f.Distinct)
    (h : x ∈ (f.remove a).preorder) : x ∈ f.preorder := by
  rcases hbelow : f.below? a with _ | g
  · rwa [remove_eq_self (below?_eq_none_iff.1 hbelow)] at h
  · exact ((mem_preorder_remove hf hbelow).1 h).1

/-! ### Insertions and the forest below a label -/

/-- What is below a label stays when a tree without this label is inserted. -/
theorem below?_insertAt {f c : Forest α} {i : Nat} {a b : α} (hba : b ≠ a)
    (hbc : b ∉ c.preorder) : (f.insertAt i a c).below? b = f.below? b := by
  induction f generalizing i with
  | nil => simp [insertAt, single, below?, Ne.symm hba, below?_eq_none_iff.2 hbc]
  | cons e d r _ ihr =>
      cases i with
      | zero =>
          rw [insertAt, below?, if_neg (Ne.symm hba), below?_eq_none_iff.2 hbc, Option.none_or]
      | succ i => rw [insertAt, below?, below?, ihr]

/-- Below the root of the inserted tree is the rest of this tree. -/
theorem below?_insertAt_self {f c : Forest α} {i : Nat} {a : α} (ha : a ∉ f.preorder) :
    (f.insertAt i a c).below? a = some c := by
  induction f generalizing i with
  | nil => rw [insertAt, single, below?, if_pos rfl]
  | cons e d r _ ihr =>
      simp only [preorder_cons, List.mem_cons, List.mem_append, not_or] at ha
      obtain ⟨he, hd, hr⟩ := ha
      cases i with
      | zero => rw [insertAt, below?, if_pos rfl]
      | succ i =>
          rw [insertAt, below?, if_neg (Ne.symm he), below?_eq_none_iff.2 hd, Option.none_or,
            ihr hr]

/-- A removal below the top does not care about an insertion at the top. -/
theorem remove_insertAt {f c : Forest α} {i : Nat} {a b : α} (hba : b ≠ a)
    (hroot : b ∉ f.roots) : (f.insertAt i a c).remove b =
      (f.remove b).insertAt i a (c.remove b) := by
  induction f generalizing i with
  | nil => simp [insertAt, single, remove, Ne.symm hba]
  | cons e d r _ ihr =>
      rw [roots, List.mem_cons, not_or] at hroot
      obtain ⟨he, hr⟩ := hroot
      cases i with
      | zero => rw [insertAt, remove, if_neg (Ne.symm hba), remove, if_neg (Ne.symm he), insertAt]
      | succ i =>
          rw [insertAt, remove, if_neg (Ne.symm he), ihr hr, remove, if_neg (Ne.symm he), insertAt]

/-- An update of an inserted tree. -/
theorem update_insertAt_self {f c : Forest α} {i : Nat} {a : α} (ha : a ∉ f.preorder)
    (k : Forest α → Forest α) : (f.insertAt i a c).update a k = f.insertAt i a (k c) := by
  induction f generalizing i with
  | nil => rw [insertAt, single, update, if_pos rfl]; rfl
  | cons e d r _ ihr =>
      simp only [preorder_cons, List.mem_cons, List.mem_append, not_or] at ha
      obtain ⟨he, hd, hr⟩ := ha
      cases i with
      | zero => rw [insertAt, update, if_pos rfl, insertAt]
      | succ i => rw [insertAt, update, if_neg (Ne.symm he), update_eq_self hd, ihr hr, insertAt]

/-- The removal of a label makes one of a label below it superfluous. -/
theorem remove_remove_of_below {f g : Forest α} {a b : α} (hf : f.Distinct)
    (h : f.below? b = some g) (ha : a ∈ g.preorder) :
    (f.remove a).remove b = f.remove b := by
  induction f with
  | nil => cases h
  | cons e c r ihc ihr =>
      obtain ⟨hec, her, hc, hr, hdisj⟩ := distinct_cons.1 hf
      have hafull := (hf.below h).2.2 a ha
      rw [below?] at h
      split at h
      · rename_i he
        cases h
        have hea : e ≠ a := by rintro rfl; exact hec ha
        rw [remove, if_neg hea, remove, if_pos he, remove, if_pos he,
          remove_eq_self (hdisj a ha)]
      · rename_i he
        rcases Option.or_eq_some_iff.1 h with h | ⟨hnone, h⟩
        · have hac := (hc.below h).2.2 a ha
          have hea : e ≠ a := by rintro rfl; exact hec hac
          rw [remove, if_neg hea, remove, if_neg he, remove, if_neg he, ihc hc h,
            remove_eq_self (hdisj a hac)]
        · have har := (hr.below h).2.2 a ha
          have hea : e ≠ a := by rintro rfl; exact her har
          rw [remove, if_neg hea, remove, if_neg he, remove, if_neg he, ihr hr h,
            remove_eq_self fun hac => hdisj a hac har]

/-! ### Places -/

/-- A label that does not occur has no place. -/
theorem locateFrom?_eq_none {f : Forest α} {a : α} (ha : a ∉ f.preorder) (parent : Option α)
    (n : Nat) : f.locateFrom? a parent n = none := by
  induction f generalizing parent n with
  | nil => rfl
  | cons b c r ihc ihr =>
      simp only [preorder_cons, List.mem_cons, List.mem_append, not_or] at ha
      obtain ⟨hb, hc, hr⟩ := ha
      rw [locateFrom?, if_neg (Ne.symm hb), ihc hc, ihr hr, Option.none_or]

/-- A label at the top has the parent of the top. -/
theorem locateFrom?_of_mem_roots {f : Forest α} {a : α} {parent : Option α} {n : Nat}
    (hf : f.Distinct) (ha : a ∈ f.roots) : ∃ i, f.locateFrom? a parent n = some (parent, i) := by
  induction f generalizing n with
  | nil => cases ha
  | cons b c r _ ihr =>
      obtain ⟨-, hbr, -, hr, hdisj⟩ := distinct_cons.1 hf
      rw [locateFrom?]
      split
      · exact ⟨n, rfl⟩
      · rename_i hb
        rw [roots, List.mem_cons] at ha
        have har := ha.resolve_left (Ne.symm hb)
        have hac : a ∉ c.preorder := fun hac => hdisj a hac (mem_preorder_of_mem_roots har)
        rw [locateFrom?_eq_none hac, Option.none_or]
        exact ihr hr har

/-! ### Removals of several labels -/

/-- The removal of one more label from a pruned forest. -/
theorem remove_prune {f : Forest α} {P : α → Bool} {a : α} (hf : f.Distinct) :
    (f.prune P).remove a = f.prune fun b => P b || decide (b = a) := by
  induction f with
  | nil => rfl
  | cons b c r ihc ihr =>
      obtain ⟨hbc, hbr, hc, hr, -⟩ := distinct_cons.1 hf
      by_cases hb : P b = true
      · rw [prune_cons, if_pos hb, prune_cons, if_pos (by simp [hb]), ihr hr]
      · rw [prune_cons, if_neg hb, remove]
        by_cases hba : b = a
        · rw [if_pos hba, prune_cons, if_pos (by simp [hba])]
          refine prune_congr fun e he => ?_
          have hea : e ≠ a := by
            rintro rfl
            exact hbr (hba ▸ he)
          simp [hea]
        · rw [if_neg hba, prune_cons, if_neg (by simp [hb, hba]), ihc hc, ihr hr]

end TileFlow.Forest
