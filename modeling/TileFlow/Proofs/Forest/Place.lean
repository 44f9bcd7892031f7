import Mathlib.Data.List.Basic
import Mathlib.Data.Set.Image
import Mathlib.Tactic.Tauto
import TileFlow.Proofs.Forest.Edit

/-!
# Places and labels in forests

The parent of a label, as a search for its place finds it, and what an edit leaves of the labels of
a forest in which a label may occur more than once. Where an edit leaves the labels in their
pre-order sequence, and what the operations on forests do with two of them side by side.

An injective relabelling goes along with every edit: it makes no difference whether a forest is
relabelled and then edited at the new label, or the other way round. The same holds for a forest
that is part of a larger one, under other labels and with its trees in another order, as long as no
other tree of the larger one has a label of the smaller one in it.

## Main definitions

* `Forest.Embeds`: a forest that has another one in it under other labels.

## Main results

* `Forest.locateFrom?_of_getElem?_roots`, `Forest.locateFrom?_of_below?`: where labels are found.
* `Forest.locate?_eq_some_iff`: the place of a label.
* `Forest.locateFrom?_isSome`: every label has a place.
* `Forest.insertAt_of_getElem?`: a leaf put before a tree at the top, or behind it.
* `Forest.preorder_remove`: a removal drops the labels of the tree and keeps the order of the rest.
* `Forest.below?_append`, `Forest.update_append`, `Forest.remove_append`: forests side by side.
* `Forest.below?_map`, `Forest.map_update`, `Forest.map_remove`: relabelling and edits.
* `Forest.Embeds.update`, `Forest.Embeds.remove`: edits at both labels.
-/

/-! ## Places -/

namespace TileFlow.Forest

section

variable {α : Type} [DecidableEq α] {f g : Forest α} {a b x : α}

/-! ### Places -/

/-- The parent of a label is the one of the top, or another label of the forest. -/
theorem parent_of_locateFrom? {top parent : Option α} {n i : Nat}
    (h : f.locateFrom? a top n = some (parent, i)) :
    parent = top ∨ ∃ b ∈ f.preorder, parent = some b := by
  induction f generalizing top n with
  | nil => cases h
  | cons e c r ihc ihr =>
      rw [locateFrom?] at h
      split at h
      · cases h
        exact .inl rfl
      · rcases Option.or_eq_some_iff.1 h with h | ⟨-, h⟩
        · rcases ihc h with rfl | ⟨b, hb, rfl⟩
          · exact .inr ⟨e, by simp, rfl⟩
          · exact .inr ⟨b, by simp [hb], rfl⟩
        · rcases ihr h with rfl | ⟨b, hb, rfl⟩
          · exact .inl rfl
          · exact .inr ⟨b, by simp [hb], rfl⟩

/-- The place that is found for a label: the labels at the top, or directly below its parent, have
it there. -/
theorem locateFrom?_eq_some {top parent : Option α} {n i : Nat} (hf : f.Distinct)
    (h : f.locateFrom? a top n = some (parent, i)) :
    (parent = top ∧ n ≤ i ∧ f.roots[i - n]? = some a) ∨
      ∃ b g, parent = some b ∧ f.below? b = some g ∧ g.roots[i]? = some a := by
  induction f generalizing top n with
  | nil => cases h
  | cons e c r ihc ihr =>
      obtain ⟨hec, her, hc, hr, hdisj⟩ := distinct_cons.1 hf
      rw [locateFrom?] at h
      split at h
      · rename_i hea
        cases h
        exact .inl ⟨rfl, Nat.le_refl _, by simp [roots, hea]⟩
      · rcases Option.or_eq_some_iff.1 h with h | ⟨-, h⟩
        · rcases ihc hc h with ⟨rfl, -, ha⟩ | ⟨b, g, rfl, hb, ha⟩
          · exact .inr ⟨e, c, rfl, by rw [below?, if_pos rfl], ha⟩
          · have hbc := mem_preorder_of_below? hb
            refine .inr ⟨b, g, rfl, ?_, ha⟩
            rw [below?, if_neg (by rintro rfl; exact hec hbc), hb, Option.some_or]
        · rcases ihr hr h with ⟨rfl, hn, ha⟩ | ⟨b, g, rfl, hb, ha⟩
          · refine .inl ⟨rfl, by omega, ?_⟩
            rw [show i - n = (i - (n + 1)) + 1 by omega, roots, List.getElem?_cons_succ, ha]
          · have hbr := mem_preorder_of_below? hb
            refine .inr ⟨b, g, rfl, ?_, ha⟩
            rw [below?, if_neg (by rintro rfl; exact her hbr),
              below?_eq_none_iff.2 fun hbc => hdisj b hbc hbr, Option.none_or, hb]

/-- A label at the top is found there. -/
theorem locateFrom?_of_getElem?_roots {top : Option α} {n i : Nat} (hf : f.Distinct)
    (h : f.roots[i]? = some a) : f.locateFrom? a top n = some (top, n + i) := by
  induction f generalizing n i with
  | nil => simp [roots] at h
  | cons e c r _ ihr =>
      obtain ⟨-, her, -, hr, hdisj⟩ := distinct_cons.1 hf
      cases i with
      | zero =>
          obtain rfl : e = a := by simpa [roots] using h
          rw [locateFrom?, if_pos rfl, Nat.add_zero]
      | succ i =>
          rw [roots, List.getElem?_cons_succ] at h
          have har := mem_preorder_of_mem_roots (List.mem_of_getElem? h)
          rw [locateFrom?, if_neg (by rintro rfl; exact her har),
            locateFrom?_eq_none (fun hac => hdisj a hac har), Option.none_or, ihr hr h,
            Nat.add_assoc, Nat.add_comm 1]

/-- A label directly below another one is found below that one. -/
theorem locateFrom?_of_below? {top : Option α} {n i : Nat} (hf : f.Distinct)
    (hb : f.below? b = some g) (h : g.roots[i]? = some a) :
    f.locateFrom? a top n = some (some b, i) := by
  have hroot := List.mem_of_getElem? h
  have ha := mem_preorder_of_mem_roots hroot
  induction f generalizing top n with
  | nil => cases hb
  | cons e c r ihc ihr =>
      obtain ⟨-, -, hc, hr, hdisj⟩ := distinct_cons.1 hf
      have hea : e ≠ a := fun hea => hf.notMem_roots_of_below hb ha (by simp [roots, hea])
      rw [locateFrom?, if_neg hea]
      rw [below?] at hb
      split at hb
      · rename_i heb
        cases hb
        rw [locateFrom?_of_getElem?_roots hc h, Option.some_or, Nat.zero_add, heb]
      · rcases Option.or_eq_some_iff.1 hb with hb | ⟨-, hb⟩
        · rw [ihc hc hb, Option.some_or]
        · have hac : a ∉ c.preorder := fun hac => hdisj a hac ((hr.below hb).2.2 a ha)
          rw [locateFrom?_eq_none hac, Option.none_or, ihr hr hb]

/-- The place of a label: among the labels at the top, which are counted from `n` on, or among the
labels directly below another one. -/
theorem locateFrom?_eq_some_iff {top parent : Option α} {n i : Nat} (hf : f.Distinct) :
    f.locateFrom? a top n = some (parent, i) ↔
      (parent = top ∧ n ≤ i ∧ f.roots[i - n]? = some a) ∨
        ∃ b g, parent = some b ∧ f.below? b = some g ∧ g.roots[i]? = some a := by
  refine ⟨locateFrom?_eq_some hf, ?_⟩
  rintro (⟨rfl, hn, h⟩ | ⟨b, g, rfl, hb, h⟩)
  · rw [locateFrom?_of_getElem?_roots hf h, Nat.add_sub_cancel' hn]
  · exact locateFrom?_of_below? hf hb h

/-- The place of a label: the labels directly below its parent, or at the top, have it there. -/
theorem locate?_eq_some_iff {parent : Option α} {i : Nat} (hf : f.Distinct) :
    f.locate? a = some (parent, i) ↔ (parent = none ∧ f.roots[i]? = some a) ∨
      ∃ b g, parent = some b ∧ f.below? b = some g ∧ g.roots[i]? = some a := by
  rw [locate?, locateFrom?_eq_some_iff hf]
  simp

/-- Every label has a place. -/
theorem locateFrom?_isSome (ha : a ∈ f.preorder) (top : Option α) (n : Nat) :
    (f.locateFrom? a top n).isSome = true := by
  induction f generalizing top n with
  | nil => cases ha
  | cons e c r ihc ihr =>
      rw [locateFrom?]
      split
      · rfl
      · rename_i he
        rw [Option.isSome_or, Bool.or_eq_true]
        simp only [preorder_cons, List.mem_cons, List.mem_append] at ha
        rcases ha with rfl | ha | ha
        · exact absurd rfl he
        · exact .inl (ihc ha _ _)
        · exact .inr (ihr ha _ _)

/-- A label at some depth below one at the top has its parent there too. -/
theorem Distinct.parent_below {h : Forest α} (hf : f.Distinct) (hroot : b ∈ f.roots)
    (hb : f.below? b = some g) (hx : x ∈ g.preorder) (ha : f.below? a = some h)
    (hxa : x ∈ h.preorder) : a = b ∨ a ∈ g.preorder := by
  refine Classical.byContradiction fun hnot => ?_
  rw [not_or] at hnot
  have hbh : b ∉ h.preorder := fun hmem => hf.notMem_roots_of_below ha hmem hroot
  exact hf.below_disjoint hb ha (Ne.symm hnot.1) hbh hnot.2 hx hxa

/-- The parent of a label that is below another one is that one, or below it too. -/
theorem Distinct.parent_mem_below {h : Forest α} (hf : f.Distinct) (hb : f.below? b = some g)
    (hx : x ∈ g.preorder) (ha : f.below? a = some h) (hxa : x ∈ h.roots) :
    a = b ∨ a ∈ g.preorder := by
  refine Classical.byContradiction fun hnot => ?_
  rw [not_or] at hnot
  have hbh : b ∉ h.preorder := fun hmem => by
    obtain ⟨k, hk⟩ := mem_preorder_iff.1 hmem
    obtain rfl : g = k := Option.some.inj (hb.symm.trans (below?_trans hf ha hk))
    exact (hf.below ha).1.notMem_roots_of_below hk hx hxa
  exact hf.below_disjoint hb ha (Ne.symm hnot.1) hbh hnot.2 hx (mem_preorder_of_mem_roots hxa)

/-- What holds directly below a label, and directly below every label of which it holds, holds of
all that is below the label. -/
theorem Distinct.forall_below {P : α → Prop} (hf : f.Distinct)
    (step : ∀ b h, f.below? b = some h → b = a ∨ P b → ∀ x ∈ h.roots, P x)
    (ha : f.below? a = some g) : ∀ x ∈ g.preorder, P x := by
  have hdown : ∀ k : Forest α, (∀ t ∈ k.trees, P t.1 ∧ f.below? t.1 = some t.2) →
      ∀ x ∈ k.preorder, P x := fun k => by
    induction k with
    | nil => exact fun _ _ hx => nomatch hx
    | cons e c r ihc ihr =>
        intro hk x hx
        obtain ⟨he, hr⟩ := List.forall_mem_cons.1 hk
        obtain ⟨hPe, hec⟩ := he
        rw [preorder_cons, List.mem_cons, List.mem_append] at hx
        rcases hx with rfl | hx | hx
        · exact hPe
        · refine ihc (fun t ht => ⟨step e c hec (.inr hPe) t.1 (mem_roots.2 ⟨t.2, ht⟩), ?_⟩) x hx
          exact below?_trans hf hec (below?_of_mem_trees (hf.below hec).1 ht)
        · exact ihr hr x hx
  refine hdown g fun t ht => ⟨step a g ha (.inl rfl) t.1 (mem_roots.2 ⟨t.2, ht⟩), ?_⟩
  exact below?_trans hf ha (below?_of_mem_trees (hf.below ha).1 ht)

/-! ### Edits of forests with repeated labels -/

/-- A label below another one is a label of the forest. -/
theorem mem_preorder_of_mem_below? (h : f.below? a = some g) (hx : x ∈ g.preorder) :
    x ∈ f.preorder := by
  induction f with
  | nil => cases h
  | cons e c r ihc ihr =>
      rw [below?] at h
      rw [preorder_cons, List.mem_cons, List.mem_append]
      split at h
      · cases h
        exact .inr (.inl hx)
      · rcases Option.or_eq_some_iff.1 h with h | ⟨-, h⟩
        · exact .inr (.inl (ihc h))
        · exact .inr (.inr (ihr h))

/-- A label after a removal was there before, whether labels are distinct or not. -/
theorem mem_preorder_of_mem_remove (h : x ∈ (f.remove a).preorder) : x ∈ f.preorder := by
  induction f with
  | nil => cases h
  | cons e c r ihc ihr =>
      rw [remove] at h
      rw [preorder_cons, List.mem_cons, List.mem_append]
      split at h
      · exact .inr (.inr h)
      · rw [preorder_cons, List.mem_cons, List.mem_append] at h
        exact h.imp_right (.imp ihc ihr)

/-- A label after a leaf was put below some label is the leaf or was there before. -/
theorem mem_preorder_of_mem_update {i : Nat}
    (h : x ∈ (f.update a (·.insertAt i b nil)).preorder) : x = b ∨ x ∈ f.preorder := by
  induction f with
  | nil => cases h
  | cons e c r ihc ihr =>
      rw [update] at h
      rw [preorder_cons, List.mem_cons, List.mem_append]
      split at h
      · rw [preorder_cons, List.mem_cons, List.mem_append, mem_preorder_insertAt] at h
        simp only [preorder_nil, List.not_mem_nil, false_or] at h
        rcases h with h | (h | h) | h
        · exact .inr (.inl h)
        · exact .inl h
        · exact .inr (.inr (.inl h))
        · exact .inr (.inr (.inr h))
      · rw [preorder_cons, List.mem_cons, List.mem_append] at h
        rcases h with h | h | h
        · exact .inr (.inl h)
        · exact (ihc h).imp_right fun h => .inr (.inl h)
        · exact (ihr h).imp_right fun h => .inr (.inr h)

end

section

variable {α : Type}

/-! ### Leaves at the top -/

/-- The root at a place is the label of the tree at this place. -/
theorem getElem?_roots {f : Forest α} {i : Nat} {a : α} :
    f.roots[i]? = some a ↔ ∃ g, f.trees[i]? = some (a, g) := by
  rw [roots_eq, List.getElem?_map, Option.map_eq_some_iff]
  constructor
  · rintro ⟨⟨b, g⟩, h, rfl⟩
    exact ⟨g, h⟩
  · rintro ⟨g, h⟩
    exact ⟨(a, g), h, rfl⟩

/-- A leaf before the tree at a place stands before its labels, and a leaf behind it behind them. -/
theorem insertAt_of_getElem? {f g : Forest α} {i : Nat} {b : α} (h : f.trees[i]? = some (b, g))
    (a : α) : ∃ A B, f.preorder = A ++ b :: (g.preorder ++ B) ∧
      (f.insertAt i a nil).preorder = A ++ a :: b :: (g.preorder ++ B) ∧
      (f.insertAt (i + 1) a nil).preorder = A ++ b :: (g.preorder ++ a :: B) := by
  induction f generalizing i with
  | nil => cases h
  | cons e c r _ ih =>
      cases i with
      | zero =>
          obtain ⟨rfl, rfl⟩ : e = b ∧ c = g := by simpa using h
          have hnext : (r.insertAt 0 a nil).preorder = a :: r.preorder := by
            cases r <;> rfl
          exact ⟨[], r.preorder, rfl, rfl, by simp [insertAt, hnext]⟩
      | succ i =>
          obtain ⟨A, B, hr, hbefore, hbehind⟩ := ih h
          exact ⟨e :: (c.preorder ++ A), B, by simp [hr], by simp [insertAt, hbefore],
            by simp [insertAt, hbehind]⟩

/-! ### Removals -/

variable [DecidableEq α]

/-- A removal drops the labels of the tree and keeps the order of the others. -/
theorem preorder_remove {f g : Forest α} {a : α} (hf : f.Distinct) (h : f.below? a = some g) :
    (f.remove a).preorder = f.preorder.filter (· ∉ a :: g.preorder) := by
  obtain ⟨A, B, hfl, -, hrem⟩ := exists_split hf h
  rw [Distinct, hfl, List.nodup_append, List.nodup_cons, List.nodup_append] at hf
  obtain ⟨-, ⟨haB, -, -, hgB⟩, hAB⟩ := hf
  have hA : A.filter (· ∉ a :: g.preorder) = A := List.filter_eq_self.2 fun x hx => by
    rw [decide_eq_true_iff, List.mem_cons, not_or]
    exact ⟨hAB x hx a List.mem_cons_self,
      fun hxg => hAB x hx x (List.mem_cons_of_mem _ (List.mem_append_left _ hxg)) rfl⟩
  have hB : B.filter (· ∉ a :: g.preorder) = B := List.filter_eq_self.2 fun x hx => by
    rw [decide_eq_true_iff, List.mem_cons, not_or]
    exact ⟨by rintro rfl; exact haB (List.mem_append_right _ hx), fun hxg => hgB x hxg x hx rfl⟩
  have htree : (a :: g.preorder).filter (· ∉ a :: g.preorder) = [] :=
    List.filter_eq_nil_iff.2 fun x hx => by
      rw [decide_eq_true_iff]
      exact not_not_intro hx
  have hsplit : A ++ a :: (g.preorder ++ B) = A ++ ((a :: g.preorder) ++ B) := rfl
  rw [hrem, hfl, hsplit, List.filter_append, List.filter_append, hA, hB, htree, List.nil_append]

/-- What is below a label when a tree that does not hold the label is removed. -/
theorem below?_remove_filter {f g h : Forest α} {a b : α} (hf : f.Distinct)
    (ha : f.below? a = some g) (hb : f.below? b = some h) (hba : b ≠ a) (hbg : b ∉ g.preorder) :
    (f.remove a).below? b = some (h.remove a) ∧
      (h.remove a).preorder = h.preorder.filter (· ∉ a :: g.preorder) := by
  refine ⟨below?_remove hf hba hb fun k hk => ?_, ?_⟩
  · rw [ha] at hk
    cases hk
    exact hbg
  · rcases hah : h.below? a with _ | k
    · have hnot := below?_eq_none_iff.1 hah
      rw [remove_eq_self hnot, eq_comm, List.filter_eq_self]
      intro x hx
      rw [decide_eq_true_iff, List.mem_cons, not_or]
      exact ⟨by rintro rfl; exact hnot hx,
        fun hxg => hf.below_disjoint ha hb (Ne.symm hba) hnot hbg hxg hx⟩
    · obtain rfl : k = g := by
        have := below?_trans hf hb hah
        rw [ha] at this
        exact (Option.some.inj this).symm
      exact preorder_remove (hf.below hb).1 hah

/-! ### Forests side by side -/

/-- What is below a label is looked up in the first of two forests, and then in the second. -/
theorem below?_append (f g : Forest α) (a : α) :
    (f ++ g).below? a = (f.below? a).or (g.below? a) := by
  show (f.append g).below? a = _
  induction f with
  | nil => rfl
  | cons e c r _ ih =>
      rw [append, below?, ih, below?]
      split
      · rfl
      · rw [Option.or_assoc]

/-- A tree that is put behind others is below its own label. -/
theorem below?_append_single {f g : Forest α} {a : α} (h : a ∉ f.preorder) :
    (f ++ single a g).below? a = some g := by
  rw [below?_append, below?_eq_none_iff.2 h, Option.none_or, single, below?, if_pos rfl]

/-- An edit below a label of two forests without a common one is an edit of one of them. -/
theorem update_append {f g : Forest α} {a : α} (hfg : (f ++ g).Distinct)
    (k : Forest α → Forest α) : (f ++ g).update a k = f.update a k ++ g.update a k := by
  show (f.append g).update a k = (f.update a k).append (g.update a k)
  induction f with
  | nil => rfl
  | cons e c r _ ih =>
      obtain ⟨-, her, -, hr, -⟩ := distinct_cons.1 hfg
      rw [append, update, update]
      split
      · rename_i hea
        subst hea
        have heg : e ∉ g.preorder := fun hmem => her ((preorder_append r g).symm ▸
          List.mem_append_right _ hmem)
        rw [append, update_eq_self heg]
      · rw [append, ih hr]

/-- A removal from forests side by side is one from each of them. -/
theorem remove_append {f g : Forest α} {a : α} (hfg : (f ++ g).Distinct) :
    (f ++ g).remove a = f.remove a ++ g.remove a := by
  show (f.append g).remove a = (f.remove a).append (g.remove a)
  induction f with
  | nil => rfl
  | cons e c r _ ih =>
      obtain ⟨-, her, -, hr, -⟩ := distinct_cons.1 hfg
      rw [append, remove, remove]
      split
      · rename_i hea
        subst hea
        have heg : e ∉ g.preorder := fun hmem => her ((preorder_append r g).symm ▸
          List.mem_append_right _ hmem)
        rw [remove_eq_self heg]
      · rw [append, ih hr]

end

end TileFlow.Forest

/-! ## Other labels -/

namespace TileFlow.Forest

variable {α β : Type}

/-- A relabelling that leaves the labels as they are. -/
theorem map_eq_self {k : α → α} {f : Forest α} (h : ∀ a ∈ f.preorder, k a = a) : f.map k = f := by
  induction f with
  | nil => rfl
  | cons b c r ihc ihr =>
      simp only [preorder_cons, List.mem_cons, List.mem_append] at h
      rw [map, h b (.inl rfl), ihc fun a ha => h a (.inr (.inl ha)),
        ihr fun a ha => h a (.inr (.inr ha))]

/-- An insertion into a mapped forest is the mapped insertion. -/
theorem map_insertAt (k : α → β) (f c : Forest α) (i : Nat) (a : α) :
    (f.insertAt i a c).map k = (f.map k).insertAt i (k a) (c.map k) := by
  induction f generalizing i with
  | nil => rfl
  | cons b d r _ ih =>
      cases i with
      | zero => rfl
      | succ i => rw [insertAt, map, map, insertAt, ih]

variable [DecidableEq α] [DecidableEq β] {k : α → β} {e f h : Forest α} {g : Forest β} {a b : α}
  {u : Forest α → Forest α} {v : Forest β → Forest β}

/-- What is below a mapped label is what is below the label, mapped. -/
theorem below?_map (hk : Function.Injective k) (f : Forest α) (a : α) :
    (f.map k).below? (k a) = (f.below? a).map (·.map k) := by
  induction f with
  | nil => rfl
  | cons b c r ihc ihr =>
      rw [map, below?, below?, ihc, ihr]
      simp only [hk.eq_iff]
      split
      · rfl
      · rw [Option.map_or]

/-- An update of a mapped forest is the mapped update, when the two do the same to the forest below
the label. -/
theorem map_update (hk : Function.Injective k) (huv : ∀ g, v (g.map k) = (u g).map k)
    (f : Forest α) (a : α) : (f.map k).update (k a) v = (f.update a u).map k := by
  induction f with
  | nil => rfl
  | cons b c r ihc ihr =>
      rw [map, update, update, ihc, ihr, huv]
      simp only [hk.eq_iff]
      split <;> rfl

/-- A removal from a mapped forest is the mapped removal. -/
theorem map_remove (hk : Function.Injective k) (f : Forest α) (a : α) :
    (f.map k).remove (k a) = (f.remove a).map k := by
  induction f with
  | nil => rfl
  | cons b c r ihc ihr =>
      rw [map, remove, remove, ihc, ihr]
      simp only [hk.eq_iff]
      split <;> rfl

/-! ### What is below a label after an edit -/

omit [DecidableEq β] in
/-- An update that keeps the labels below some label adds those that it puts there. -/
theorem mem_preorder_update (hf : f.Distinct) (ha : f.below? a = some h)
    (hkeep : ∀ b ∈ h.preorder, b ∈ (u h).preorder) {b : α} :
    b ∈ (f.update a u).preorder ↔ b ∈ f.preorder ∨ b ∈ (u h).preorder := by
  obtain ⟨A, B, hfl, hup, -⟩ := exists_split hf ha
  rw [hup, hfl]
  have := hkeep b
  simp only [List.mem_append, List.mem_cons]
  tauto

/-- An update that keeps labels, as it is seen below a label apart from it. -/
theorem below?_update_of_notMem (hf : f.Distinct) (ha : f.below? a = some h)
    (hkeep : ∀ b ∈ h.preorder, b ∈ (u h).preorder) (hba : b ≠ a) (hb : b ∉ (u h).preorder) :
    (f.update a u).below? b = (f.below? b).map (·.update a u) := by
  rcases hfb : f.below? b with _ | g
  · rw [Option.map_none, below?_eq_none_iff, mem_preorder_update hf ha hkeep, not_or]
    exact ⟨below?_eq_none_iff.1 hfb, hb⟩
  · refine below?_update hf hba hfb fun g' hg' => ?_
    obtain rfl : h = g' := Option.some.inj (ha.symm.trans hg')
    exact ⟨fun hmem => hb (hkeep b hmem), hb⟩

/-- A removal, as it is seen below a label that stays. -/
theorem below?_remove_of_notMem (hf : f.Distinct) (ha : f.below? a = some h) (hba : b ≠ a)
    (hb : b ∉ h.preorder) : (f.remove a).below? b = (f.below? b).map (·.remove a) := by
  rcases hfb : f.below? b with _ | g
  · rw [Option.map_none, below?_eq_none_iff, mem_preorder_remove hf ha]
    exact fun hmem => below?_eq_none_iff.1 hfb hmem.1
  · refine below?_remove hf hba hfb fun g' hg' => ?_
    obtain rfl : h = g' := Option.some.inj (ha.symm.trans hg')
    exact hb

/-! ### A forest within another one -/

/-- Whether a forest has another one in it under other labels: what is below a label agrees, and
nothing with a label of the smaller one is below any other label. -/
structure Embeds (k : α → β) (f : Forest α) (g : Forest β) : Prop where
  below : ∀ a, g.below? (k a) = (f.below? a).map (·.map k)
  apart : ∀ b ∉ Set.range k, ∀ h, g.below? b = some h → ∀ a, k a ∉ h.preorder

omit [DecidableEq α] in
/-- Below a label that is no mapped one there is nothing in a mapped forest. -/
theorem below?_map_of_notMem_range {b : β} (hb : b ∉ Set.range k) (f : Forest α) :
    (f.map k).below? b = none := by
  rw [below?_eq_none_iff, preorder_map, List.mem_map]
  rintro ⟨a, -, rfl⟩
  exact hb ⟨a, rfl⟩

namespace Embeds

/-- The mapped labels are those of the embedded forest. -/
theorem mem_iff (hfg : Embeds k f g) : k a ∈ g.preorder ↔ a ∈ f.preorder := by
  rw [← not_iff_not, ← below?_eq_none_iff, ← below?_eq_none_iff, hfg.below, Option.map_eq_none_iff]

/-- A forest without any of the labels has the empty one in it. -/
theorem nil_left (h : ∀ a, k a ∉ g.preorder) : Embeds k nil g where
  below a := below?_eq_none_iff.2 (h a)
  apart _ _ _ hm a ha := h a (mem_preorder_of_mem_below? hm ha)

/-- Embedded forests stay embedded behind a mapped forest. -/
theorem map_append (hk : Function.Injective k) (hfg : Embeds k f g) (e : Forest α) :
    Embeds k (e ++ f) (e.map k ++ g) where
  below a := by
    rw [below?_append, below?_append, below?_map hk, hfg.below, Option.map_or]
  apart b hb h hh := by
    rw [below?_append, below?_map_of_notMem_range hb, Option.none_or] at hh
    exact hfg.apart b hb h hh

/-- An edit of what is below a label, which keeps what is there. -/
theorem update (hfg : Embeds k f g) (hk : Function.Injective k) (hf : f.Distinct) (hg : g.Distinct)
    (hf' : (f.update a u).Distinct) (hg' : (g.update (k a) v).Distinct)
    (huv : ∀ h, v (h.map k) = (u h).map k) (hkeep : ∀ h, ∀ b ∈ h.preorder, b ∈ (u h).preorder) :
    Embeds k (f.update a u) (g.update (k a) v) := by
  rcases ha : f.below? a with _ | h
  · have hnot := below?_eq_none_iff.1 ha
    rwa [update_eq_self hnot, update_eq_self (mt hfg.mem_iff.1 hnot)]
  · have hka : g.below? (k a) = some (h.map k) := by rw [hfg.below, ha, Option.map_some]
    have hkeep' : ∀ b ∈ (h.map k).preorder, b ∈ (v (h.map k)).preorder := by
      rw [huv, preorder_map, preorder_map]
      intro b hb
      obtain ⟨c, hc, rfl⟩ := List.mem_map.1 hb
      exact List.mem_map_of_mem (hkeep h c hc)
    refine ⟨fun b => ?_, fun b hb h' hh' c => ?_⟩
    · by_cases hba : b = a
      · rw [hba, below?_update_self hka, below?_update_self ha, huv, Option.map_some]
      · by_cases hbu : b ∈ (u h).preorder
        · obtain ⟨m, hm⟩ := mem_preorder_iff.1 hbu
          have hkm : (v (h.map k)).below? (k b) = some (m.map k) := by
            rw [huv, below?_map hk, hm, Option.map_some]
          rw [below?_trans hf' (below?_update_self ha u) hm,
            below?_trans hg' (below?_update_self hka v) hkm, Option.map_some]
        · have hkb : k b ∉ (v (h.map k)).preorder := by
            rwa [huv, preorder_map, List.mem_map_of_injective hk]
          rw [below?_update_of_notMem hf ha (hkeep h) hba hbu,
            below?_update_of_notMem hg hka hkeep' (hk.ne hba) hkb, hfg.below, Option.map_map,
            Option.map_map]
          exact congrArg (Option.map · _) (funext fun m => map_update hk huv m a)
    · have hbv : b ∉ (v (h.map k)).preorder := by
        rw [← below?_eq_none_iff, huv]
        exact below?_map_of_notMem_range hb _
      rw [below?_update_of_notMem hg hka hkeep' (fun heq => hb ⟨a, heq.symm⟩) hbv] at hh'
      obtain ⟨m, hm, rfl⟩ := Option.map_eq_some_iff.1 hh'
      have hapart := hfg.apart b hb m hm
      rw [update_eq_self (hapart a)]
      exact hapart c

/-- A removal at both labels. -/
theorem remove (hfg : Embeds k f g) (hk : Function.Injective k) (hf : f.Distinct) (hg : g.Distinct)
    (a : α) : Embeds k (f.remove a) (g.remove (k a)) := by
  rcases ha : f.below? a with _ | h
  · have hnot := below?_eq_none_iff.1 ha
    rwa [remove_eq_self hnot, remove_eq_self (mt hfg.mem_iff.1 hnot)]
  · have hka : g.below? (k a) = some (h.map k) := by rw [hfg.below, ha, Option.map_some]
    have hmem : ∀ b, k b ∈ (h.map k).preorder ↔ b ∈ h.preorder := fun b => by
      rw [preorder_map, List.mem_map_of_injective hk]
    refine ⟨fun b => ?_, fun b hb h' hh' c => ?_⟩
    · by_cases hgone : b = a ∨ b ∈ h.preorder
      · have hleft : b ∉ (f.remove a).preorder := by
          rw [mem_preorder_remove hf ha]
          tauto
        have hright : k b ∉ (g.remove (k a)).preorder := by
          rw [mem_preorder_remove hg hka, hmem, hk.ne_iff]
          tauto
        rw [below?_eq_none_iff.2 hleft, below?_eq_none_iff.2 hright, Option.map_none]
      · obtain ⟨hba, hbh⟩ := not_or.1 hgone
        rw [below?_remove_of_notMem hf ha hba hbh,
          below?_remove_of_notMem hg hka (hk.ne hba) (mt (hmem b).1 hbh), hfg.below,
          Option.map_map, Option.map_map]
        exact congrArg (Option.map · _) (funext fun m => map_remove hk m a)
    · have hbh : b ∉ (h.map k).preorder := by
        rw [← below?_eq_none_iff]
        exact below?_map_of_notMem_range hb _
      rw [below?_remove_of_notMem hg hka (fun heq => hb ⟨a, heq.symm⟩) hbh] at hh'
      obtain ⟨m, hm, rfl⟩ := Option.map_eq_some_iff.1 hh'
      have hapart := hfg.apart b hb m hm
      rw [remove_eq_self (hapart a)]
      exact hapart c

end Embeds

end TileFlow.Forest
