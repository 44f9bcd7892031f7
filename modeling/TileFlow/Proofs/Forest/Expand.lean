import TileFlow.Proofs.Forest
import TileFlow.Proofs.Forest.Edit
import TileFlow.Proofs.Forest.Place

/-!
# Leaves and forests in place of trees

A forest in which trees are replaced, by leaves or by other forests, each tree where it stood. Trees
are replaced from the outside to the inside, so that nothing of a tree that is replaced is left:
what would stand for a label inside of it makes no difference. One tree is replaced by putting
something before it and taking it away; several are replaced one after the other, in any order.

## Main definitions

* `Forest.expand`: leaves in place of trees.
* `Forest.putBefore`: leaves before a tree.
* `Forest.graft`: forests in place of trees.
* `Forest.putTrees`: a forest before a tree.

## Main results

* `Forest.insertAt_eq_putBefore`, `Forest.update_eq_putBefore`: a leaf that is put before a label.
* `Forest.remove_putBefore`: a tree replaced.
* `Forest.expand_expand`: trees replaced after others.
* `Forest.mem_trees_expand`: what is below the labels at the top.
* `Forest.remove_putTrees`: one tree replaced.
* `Forest.graft_graft`: trees replaced after others.
* `Forest.graft_congr`: only what stands for the outermost labels counts.
* `Forest.below?_graft`: what is below a label that stays.
-/

/-! ## Leaves -/

namespace TileFlow.Forest

variable {α : Type} {f c r : Forest α} {a x : α} {l : List α} {g h : α → Option (List α)}

/-- Leaves before a forest. -/
def leaves (l : List α) (f : Forest α) : Forest α :=
  l.foldr (fun a rest => cons a nil rest) f

@[simp] theorem leaves_nil (f : Forest α) : leaves [] f = f := rfl

@[simp] theorem leaves_cons (a : α) (l : List α) (f : Forest α) :
    leaves (a :: l) f = cons a nil (leaves l f) := rfl

/-- Leaves in front of leaves are leaves of both lists. -/
theorem leaves_append (l l' : List α) (f : Forest α) :
    leaves (l ++ l') f = leaves l (leaves l' f) :=
  List.foldr_append

/-- The labels of leaves come before those of the forest behind them. -/
@[simp] theorem preorder_leaves (l : List α) (f : Forest α) :
    (leaves l f).preorder = l ++ f.preorder := by
  induction l with
  | nil => rfl
  | cons a l ih => simp [ih]

/-- The trees of leaves come before those of the forest behind them. -/
@[simp] theorem trees_leaves (l : List α) (f : Forest α) :
    (leaves l f).trees = l.map (fun a => (a, nil)) ++ f.trees := by
  induction l with
  | nil => rfl
  | cons a l ih => simp [ih]

/-! ### Several trees -/

/-- The forest with leaves in place of the trees at the labels for which there are some. -/
def expand (g : α → Option (List α)) : Forest α → Forest α
  | nil => nil
  | cons a children rest =>
    match g a with
    | none => cons a (children.expand g) (rest.expand g)
    | some l => leaves l (rest.expand g)

@[simp] theorem expand_nil (g : α → Option (List α)) : (nil : Forest α).expand g = nil := rfl

/-- A tree whose label is not expanded keeps its root. -/
theorem expand_cons_none (h : g a = none) :
    (cons a c r).expand g = cons a (c.expand g) (r.expand g) := by
  simp only [expand, h]

/-- A tree whose label is expanded is replaced by leaves. -/
theorem expand_cons_some (h : g a = some l) : (cons a c r).expand g = leaves l (r.expand g) := by
  simp only [expand, h]

/-- Only what is put in place of the labels of a forest matters for its expansion. -/
theorem expand_congr (hg : ∀ a ∈ f.preorder, g a = h a) : f.expand g = f.expand h := by
  induction f with
  | nil => rfl
  | cons a c r ihc ihr =>
      simp only [preorder, List.mem_cons, List.mem_append] at hg
      have hr := ihr fun b hb => hg b (.inr (.inr hb))
      rcases ha : g a with _ | l
      · rw [expand_cons_none ha, expand_cons_none (hg a (.inl rfl) ▸ ha), hr,
          ihc fun b hb => hg b (.inr (.inl hb))]
      · rw [expand_cons_some ha, expand_cons_some (hg a (.inl rfl) ▸ ha), hr]

/-- Without leaves for its labels, a forest stays as it is. -/
theorem expand_eq_self (h : ∀ a ∈ f.preorder, g a = none) : f.expand g = f := by
  induction f with
  | nil => rfl
  | cons a c r ihc ihr =>
      simp only [preorder, List.mem_cons, List.mem_append] at h
      rw [expand_cons_none (h a (.inl rfl)), ihc fun b hb => h b (.inr (.inl hb)),
        ihr fun b hb => h b (.inr (.inr hb))]

/-- Leaves that are not expanded stay in front. -/
theorem expand_leaves (hl : ∀ a ∈ l, g a = none) (f : Forest α) :
    (leaves l f).expand g = leaves l (f.expand g) := by
  induction l with
  | nil => rfl
  | cons a l ih =>
      rw [leaves_cons, expand_cons_none (hl a List.mem_cons_self), expand_nil,
        ih fun b hb => hl b (List.mem_cons_of_mem _ hb), leaves_cons]

/-- Trees that are replaced after others are replaced with them, if the leaves stay. -/
theorem expand_expand (hleaves : ∀ a l, g a = some l → ∀ b ∈ l, h b = none) (f : Forest α) :
    (f.expand g).expand h = f.expand fun a => (g a).or (h a) := by
  induction f with
  | nil => rfl
  | cons a c r ihc ihr =>
      rcases ha : g a with _ | l
      · rw [expand_cons_none ha]
        rcases hb : h a with _ | l
        · rw [expand_cons_none hb, expand_cons_none (by rw [ha, hb]; rfl), ihc, ihr]
        · rw [expand_cons_some hb, expand_cons_some (by rw [ha, hb]; rfl), ihr]
      · rw [expand_cons_some ha, expand_leaves (hleaves a l ha), ihr,
          expand_cons_some (by rw [ha]; rfl)]

/-- A tree at the top that stays holds what its contents become. -/
theorem mem_trees_expand (h : (a, c) ∈ f.trees) (ha : g a = none) :
    (a, c.expand g) ∈ (f.expand g).trees := by
  induction f with
  | nil => cases h
  | cons b d r _ ihr =>
      rw [trees_cons, List.mem_cons, Prod.mk.injEq] at h
      rcases h with ⟨rfl, rfl⟩ | h
      · rw [expand_cons_none ha, trees_cons]
        exact List.mem_cons_self
      · rcases hb : g b with _ | l
        · rw [expand_cons_none hb, trees_cons]
          exact List.mem_cons_of_mem _ (ihr h)
        · rw [expand_cons_some hb, trees_leaves]
          exact List.mem_append_right _ (ihr h)

/-! ### One tree -/

variable [DecidableEq α]

/-- The forest with leaves before the first tree that has a label. -/
def putBefore (x : α) (l : List α) : Forest α → Forest α
  | nil => nil
  | cons a children rest =>
    if a = x then leaves l (cons a children rest)
    else cons a (children.putBefore x l) (rest.putBefore x l)

/-- The leaves for a label are there, if it is below no other label for which there are some. -/
theorem mem_preorder_expand (hf : f.Distinct) (hx : x ∈ f.preorder) (hl : g x = some l)
    (hout : ∀ y k, f.below? y = some k → x ∈ k.preorder → g y = none) (ha : a ∈ l) :
    a ∈ (f.expand g).preorder := by
  induction f with
  | nil => cases hx
  | cons e c r ihc ihr =>
      obtain ⟨hec, her, hc, hr, hcr⟩ := distinct_cons.1 hf
      rw [preorder, List.mem_cons, List.mem_append] at hx
      rcases hx with rfl | hx | hx
      · rw [expand_cons_some hl, preorder_leaves]
        exact List.mem_append_left _ ha
      · have hnone := hout e c (by rw [below?, if_pos rfl]) hx
        rw [expand_cons_none hnone, preorder, List.mem_cons, List.mem_append]
        refine .inr (.inl (ihc hc hx fun y k hy => hout y k ?_))
        rw [below?, if_neg (by rintro rfl; exact hec (mem_preorder_of_below? hy)), hy,
          Option.some_or]
      · have hrest := ihr hr hx fun y k hy => hout y k (by
          have hyr := mem_preorder_of_below? hy
          rw [below?, if_neg (by rintro rfl; exact her hyr),
            below?_eq_none_iff.2 fun hyc => hcr y hyc hyr, Option.none_or, hy])
        rcases he : g e with _ | l'
        · rw [expand_cons_none he, preorder, List.mem_cons, List.mem_append]
          exact .inr (.inr hrest)
        · rw [expand_cons_some he, preorder_leaves]
          exact List.mem_append_right _ hrest

/-- Putting no leaf before a label changes nothing. -/
theorem putBefore_nil (x : α) (f : Forest α) : f.putBefore x [] = f := by
  induction f with
  | nil => rfl
  | cons a c r ihc ihr => rw [putBefore, ihc, ihr, leaves_nil, ite_self]

/-- Putting leaves before a label that does not occur changes nothing. -/
theorem putBefore_eq_self (hx : x ∉ f.preorder) (l : List α) : f.putBefore x l = f := by
  induction f with
  | nil => rfl
  | cons a c r ihc ihr =>
      simp only [preorder, List.mem_cons, List.mem_append, not_or] at hx
      rw [putBefore, if_neg (Ne.symm hx.1), ihc hx.2.1, ihr hx.2.2]

/-- Leaves with other labels stay in front of what is put before a label. -/
theorem putBefore_leaves {l' : List α} (hx : x ∉ l') (l : List α) (f : Forest α) :
    (leaves l' f).putBefore x l = leaves l' (f.putBefore x l) := by
  induction l' with
  | nil => rfl
  | cons a l' ih =>
      rw [List.mem_cons, not_or] at hx
      rw [leaves_cons, putBefore, if_neg (Ne.symm hx.1), ih hx.2, putBefore, leaves_cons]

/-- Leaves that are put before the same label after others stand behind those. -/
theorem putBefore_putBefore (hx : x ∉ l) (l' : List α) (f : Forest α) :
    (f.putBefore x l).putBefore x l' = f.putBefore x (l ++ l') := by
  induction f with
  | nil => rfl
  | cons a c r ihc ihr =>
      by_cases ha : a = x
      · rw [putBefore, if_pos ha, putBefore_leaves hx, putBefore, if_pos ha, putBefore, if_pos ha,
          leaves_append]
      · rw [putBefore, if_neg ha, putBefore, if_neg ha, ihc, ihr, putBefore, if_neg ha]

/-- A tree with leaves before it that is taken away is replaced by them. -/
theorem remove_putBefore (hf : f.Distinct) (hx : x ∉ l) :
    (f.putBefore x l).remove x = f.expand fun a => if a = x then some l else none := by
  have hleaves : ∀ (l : List α) (k : Forest α), x ∉ l →
      (leaves l k).remove x = leaves l (k.remove x) := fun l k hl => by
    induction l with
    | nil => rfl
    | cons a l ih =>
        rw [List.mem_cons, not_or] at hl
        rw [leaves_cons, remove, if_neg (Ne.symm hl.1), ih hl.2, remove, leaves_cons]
  induction f with
  | nil => rfl
  | cons a c r ihc ihr =>
      obtain ⟨-, har, hc, hr, -⟩ := distinct_cons.1 hf
      by_cases ha : a = x
      · have hsome : (if a = x then some l else none) = some l := if_pos ha
        rw [putBefore, if_pos ha, hleaves _ _ hx, remove, if_pos ha, expand_cons_some hsome,
          expand_eq_self]
        intro b hb
        refine if_neg ?_
        rintro rfl
        exact har (ha ▸ hb)
      · have hnone : (if a = x then some l else none) = none := if_neg ha
        rw [putBefore, if_neg ha, remove, if_neg ha, ihc hc, ihr hr, expand_cons_none hnone]

/-- A leaf that is put at the place of a tree at the top. -/
theorem insertAt_eq_putBefore {i : Nat} (hf : f.Distinct) (h : f.roots[i]? = some x) (a : α) :
    f.insertAt i a nil = f.putBefore x [a] := by
  induction f generalizing i with
  | nil => cases h
  | cons b c r _ ihr =>
      obtain ⟨-, hbr, -, hr, hcr⟩ := distinct_cons.1 hf
      cases i with
      | zero =>
          obtain rfl : b = x := by simpa [roots] using h
          rw [putBefore, if_pos rfl, insertAt, leaves_cons, leaves_nil]
      | succ i =>
          rw [roots, List.getElem?_cons_succ] at h
          have hxr := mem_preorder_of_mem_roots (List.mem_of_getElem? h)
          rw [putBefore, if_neg (by rintro rfl; exact hbr hxr),
            putBefore_eq_self (fun hxc => hcr x hxc hxr), insertAt, ihr hr h]

/-- A leaf that is put at the place of a tree below another label. -/
theorem update_eq_putBefore {b : α} {k : Forest α} {i : Nat} (hf : f.Distinct)
    (hb : f.below? b = some k) (h : k.roots[i]? = some x) (a : α) :
    f.update b (·.insertAt i a nil) = f.putBefore x [a] := by
  have hxk := mem_preorder_of_mem_roots (List.mem_of_getElem? h)
  induction f with
  | nil => cases hb
  | cons e c r ihc ihr =>
      obtain ⟨hec, her, hc, hr, hcr⟩ := distinct_cons.1 hf
      rw [below?] at hb
      split at hb
      · rename_i heb
        cases hb
        rw [update, if_pos heb, putBefore, if_neg (by rintro rfl; exact hec hxk),
          insertAt_eq_putBefore hc h, putBefore_eq_self (hcr x hxk)]
      · rename_i heb
        rcases Option.or_eq_some_iff.1 hb with hb | ⟨hnone, hb⟩
        · have hxc := (hc.below hb).2.2 x hxk
          have hbr : b ∉ r.preorder := hcr b (mem_preorder_of_below? hb)
          rw [update, if_neg heb, putBefore, if_neg (by rintro rfl; exact hec hxc), ihc hc hb,
            update_eq_self hbr, putBefore_eq_self (hcr x hxc)]
        · have hxr := (hr.below hb).2.2 x hxk
          rw [update, if_neg heb, putBefore, if_neg (by rintro rfl; exact her hxr), ihr hr hb,
            update_eq_self (below?_eq_none_iff.1 hnone),
            putBefore_eq_self fun hxc => hcr x hxc hxr]

end TileFlow.Forest

/-! ## Forests -/

namespace TileFlow.Forest

variable {α β : Type} {f c r F F' : Forest α} {a b x n : α}

/-! ### Several trees -/

/-- The forest with others in place of the trees at the labels for which there is one, and a
function applied to the labels that stay. -/
def graft (g : α → Option (Forest β)) (h : α → β) : Forest α → Forest β
  | nil => nil
  | cons a children rest =>
    match g a with
    | none => cons (h a) (children.graft g h) (rest.graft g h)
    | some f => f ++ rest.graft g h

section Graft

variable {g g' : α → Option (Forest β)} {h : α → β} {G : Forest β}

@[simp] theorem graft_nil (g : α → Option (Forest β)) (h : α → β) : nil.graft g h = nil := rfl

/-- A tree that nothing replaces keeps its root, under its new name. -/
theorem graft_cons_none (ha : g a = none) :
    (cons a c r).graft g h = cons (h a) (c.graft g h) (r.graft g h) := by
  simp only [graft, ha]

/-- A tree that a forest replaces is left out. -/
theorem graft_cons_some (ha : g a = some G) : (cons a c r).graft g h = G ++ r.graft g h := by
  simp only [graft, ha]

/-- Without forests for its labels, a forest keeps its shape. -/
theorem graft_eq_map (hg : ∀ a ∈ f.preorder, g a = none) : f.graft g h = f.map h := by
  induction f with
  | nil => rfl
  | cons a c r ihc ihr =>
      simp only [preorder, List.mem_cons, List.mem_append] at hg
      rw [graft_cons_none (hg a (.inl rfl)), ihc fun b hb => hg b (.inr (.inl hb)),
        ihr fun b hb => hg b (.inr (.inr hb)), map]

/-- Forests side by side are grafted one by one. -/
theorem graft_append (f f' : Forest α) :
    (f ++ f').graft g h = f.graft g h ++ f'.graft g h := by
  induction f with
  | nil => rfl
  | cons a c r _ ihr =>
      show (cons a c (r ++ f')).graft g h = _
      rcases ha : g a with _ | G
      · rw [graft_cons_none ha, graft_cons_none ha, ihr]
        rfl
      · rw [graft_cons_some ha, graft_cons_some ha, ihr, append_assoc]

/-- What is put for a label below one that is replaced makes no difference. -/
theorem graft_congr [DecidableEq α] {h' : α → β} (hf : f.Distinct)
    (hlabels : ∀ a ∈ f.preorder, h a = h' a)
    (houter : ∀ a ∈ f.preorder, (∀ y k, f.below? y = some k → a ∈ k.preorder → g y = none) →
      g a = g' a) : f.graft g h = f.graft g' h' := by
  induction f with
  | nil => rfl
  | cons a c r ihc ihr =>
      obtain ⟨hac, har, hc, hr, hcr⟩ := distinct_cons.1 hf
      have hbelow : ∀ y k, (cons a c r).below? y = some k →
          (y = a ∧ k = c) ∨ c.below? y = some k ∨ r.below? y = some k := fun y k hy => by
        rw [below?] at hy
        split at hy
        · rename_i heq
          exact .inl ⟨heq.symm, (Option.some.inj hy).symm⟩
        · exact .inr ((Option.or_eq_some_iff.1 hy).imp_right And.right)
      have ha : g a = g' a := houter a (by simp) fun y k hy hak => by
        rcases hbelow y k hy with ⟨-, rfl⟩ | hy | hy
        · exact absurd hak hac
        · exact absurd ((hc.below hy).2.2 a hak) hac
        · exact absurd ((hr.below hy).2.2 a hak) har
      have hrest : r.graft g h = r.graft g' h' := ihr hr (fun b hb => hlabels b (by simp [hb]))
        fun b hb hout => houter b (by simp [hb]) fun y k hy hbk => by
          rcases hbelow y k hy with ⟨-, rfl⟩ | hy | hy
          · exact absurd hb (hcr b hbk)
          · exact absurd hb (hcr b ((hc.below hy).2.2 b hbk))
          · exact hout y k hy hbk
      rcases hg : g a with _ | G
      · rw [graft_cons_none hg, graft_cons_none (ha ▸ hg), hrest, hlabels a (by simp),
          ihc hc (fun b hb => hlabels b (by simp [hb])) fun b hb hout =>
            houter b (by simp [hb]) fun y k hy hbk => ?_]
        rcases hbelow y k hy with ⟨rfl, -⟩ | hy | hy
        · exact hg
        · exact hout y k hy hbk
        · exact absurd ((hr.below hy).2.2 b hbk) (hcr b hb)
      · rw [graft_cons_some hg, graft_cons_some (ha ▸ hg), hrest]

end Graft

section Labels

variable {g : α → Option (Forest α)}

/-- Without forests for its labels, a forest stays as it is. -/
theorem graft_eq_self (hg : ∀ a ∈ f.preorder, g a = none) : f.graft g id = f := by
  rw [graft_eq_map hg]
  exact map_eq_self fun _ _ => rfl

/-- Trees that are replaced after others are replaced with them, if none of them was put there. -/
theorem graft_graft {g' : α → Option (Forest β)} {h : α → β}
    (hput : ∀ a G, g a = some G → ∀ b ∈ G.preorder, g' b = none) (f : Forest α) :
    (f.graft g id).graft g' h = f.graft (fun a => ((g a).map (Forest.map h)).or (g' a)) h := by
  induction f with
  | nil => rfl
  | cons a c r ihc ihr =>
      rcases ha : g a with _ | G
      · rw [graft_cons_none ha, id_eq]
        rcases hb : g' a with _ | G
        · rw [graft_cons_none hb, graft_cons_none (by rw [ha, hb]; rfl), ihc, ihr]
        · rw [graft_cons_some hb, graft_cons_some (by rw [ha, hb]; rfl), ihr]
      · rw [graft_cons_some ha, graft_append, graft_eq_map (hput a G ha), ihr,
          graft_cons_some (by rw [ha]; rfl)]

/-- A label of the forest after it is one of before that is not replaced, or one of a forest that
was put there. -/
theorem mem_preorder_of_graft (hx : x ∈ (f.graft g id).preorder) :
    (x ∈ f.preorder ∧ g x = none) ∨ ∃ a ∈ f.preorder, ∃ G, g a = some G ∧ x ∈ G.preorder := by
  induction f with
  | nil => cases hx
  | cons a c r ihc ihr =>
      have hrest : x ∈ (r.graft g id).preorder → (x ∈ (cons a c r).preorder ∧ g x = none) ∨
          ∃ b ∈ (cons a c r).preorder, ∃ G, g b = some G ∧ x ∈ G.preorder := fun hx => by
        rcases ihr hx with ⟨hx, hnone⟩ | ⟨b, hb, h⟩
        · exact .inl ⟨by simp [preorder, hx], hnone⟩
        · exact .inr ⟨b, by simp [preorder, hb], h⟩
      rcases ha : g a with _ | G
      · rw [graft_cons_none ha, preorder, List.mem_cons, List.mem_append] at hx
        rcases hx with rfl | hx | hx
        · exact .inl ⟨by simp [preorder], ha⟩
        · rcases ihc hx with ⟨hx, hnone⟩ | ⟨b, hb, h⟩
          · exact .inl ⟨by simp [preorder, hx], hnone⟩
          · exact .inr ⟨b, by simp [preorder, hb], h⟩
        · exact hrest hx
      · rw [graft_cons_some ha, preorder_append, List.mem_append] at hx
        rcases hx with hx | hx
        · exact .inr ⟨a, by simp [preorder], G, ha, hx⟩
        · exact hrest hx

/-- The labels with a property that nothing of what was put there has. -/
theorem filter_preorder_graft {P : α → Bool}
    (hput : ∀ a G, g a = some G → ∀ b ∈ G.preorder, P b = false) (f : Forest α) :
    (f.graft g id).preorder.filter P = (f.prune fun a => (g a).isSome).preorder.filter P := by
  induction f with
  | nil => rfl
  | cons a c r ihc ihr =>
      rcases ha : g a with _ | G
      · rw [graft_cons_none ha, prune_cons, if_neg (by simp [ha]), id_eq, preorder_cons,
          preorder_cons, List.filter_cons, List.filter_cons, List.filter_append,
          List.filter_append, ihc, ihr]
      · have hG : G.preorder.filter P = [] :=
          List.filter_eq_nil_iff.2 fun b hb => by simp [hput a G ha b hb]
        rw [graft_cons_some ha, prune_cons, if_pos (by simp [ha]), preorder_append,
          List.filter_append, hG, List.nil_append, ihr]

/-- What is below a label that stays. -/
theorem below?_graft [DecidableEq α] (hf : f.Distinct) {k : Forest α} (hx : f.below? x = some k)
    (hnone : g x = none) (houter : ∀ y k, f.below? y = some k → x ∈ k.preorder → g y = none)
    (hput : ∀ a G, g a = some G → x ∉ G.preorder) :
    (f.graft g id).below? x = some (k.graft g id) := by
  induction f with
  | nil => cases hx
  | cons a c r ihc ihr =>
      obtain ⟨hac, har, hc, hr, hcr⟩ := distinct_cons.1 hf
      rw [below?] at hx
      split at hx
      · rename_i heq
        cases hx
        rw [graft_cons_none (heq ▸ hnone), id_eq, below?, if_pos heq]
      rename_i hne
      rcases hxc : c.below? x with _ | k'
      · rw [hxc, Option.none_or] at hx
        have hxc := below?_eq_none_iff.1 hxc
        have hrest := ihr hr hx fun y k hy hxk => houter y k (by
          have hyr := mem_preorder_of_below? hy
          rw [below?, if_neg (by rintro rfl; exact har hyr),
            below?_eq_none_iff.2 fun hyc => hcr y hyc hyr, Option.none_or, hy]) hxk
        rcases ha : g a with _ | G
        · have hnot : x ∉ (c.graft g id).preorder := fun hmem => by
            rcases mem_preorder_of_graft hmem with ⟨hmem, -⟩ | ⟨b, -, G, hb, hmem⟩
            · exact hxc hmem
            · exact hput b G hb hmem
          rw [graft_cons_none ha, id_eq, below?, if_neg hne, below?_eq_none_iff.2 hnot,
            Option.none_or,
            hrest]
        · rw [graft_cons_some ha, below?_append, below?_eq_none_iff.2 (hput a G ha),
            Option.none_or, hrest]
      · rw [hxc, Option.some_or, Option.some.injEq] at hx
        subst hx
        have ha := houter a c (by rw [below?, if_pos rfl]) (mem_preorder_of_below? hxc)
        rw [graft_cons_none ha, id_eq, below?, if_neg hne,
          ihc hc hxc fun y k hy hxk => houter y k (by
          have hyc := mem_preorder_of_below? hy
          rw [below?, if_neg (by rintro rfl; exact hac hyc), hy, Option.some_or]) hxk,
          Option.some_or]

end Labels

/-! ### One tree -/

variable [DecidableEq α]

/-- The forest with another one before the first tree that has a label. -/
def putTrees : Forest α → (x : α) → (F : Forest α) → Forest α
  | nil, _, _ => nil
  | cons a children rest, x, F =>
    if a = x then F ++ cons a children rest
    else cons a (children.putTrees x F) (rest.putTrees x F)

/-- Putting no tree before a label changes nothing. -/
theorem putTrees_nil (x : α) (f : Forest α) : f.putTrees x nil = f := by
  induction f with
  | nil => rfl
  | cons a c r ihc ihr => rw [putTrees, ihc, ihr, nil_append, ite_self]

/-- Putting trees before a label that does not occur changes nothing. -/
theorem putTrees_eq_self (hx : x ∉ f.preorder) (F : Forest α) : f.putTrees x F = f := by
  induction f with
  | nil => rfl
  | cons a c r ihc ihr =>
      simp only [preorder, List.mem_cons, List.mem_append, not_or] at hx
      rw [putTrees, if_neg (Ne.symm hx.1), ihc hx.2.1, ihr hx.2.2]

/-- A leaf before a tree. -/
theorem putBefore_eq_putTrees (x a : α) (f : Forest α) :
    f.putBefore x [a] = f.putTrees x (single a nil) := by
  induction f with
  | nil => rfl
  | cons b c r ihc ihr =>
      rw [putBefore, putTrees, ihc, ihr]
      rfl

/-- Trees without a label stay in front of what is put before it. -/
theorem putTrees_append (hx : x ∉ F.preorder) (F' f : Forest α) :
    (F ++ f).putTrees x F' = F ++ f.putTrees x F' := by
  induction F with
  | nil => rfl
  | cons a c r _ ihr =>
      simp only [preorder, List.mem_cons, List.mem_append, not_or] at hx
      show (cons a c (r ++ f)).putTrees x F' = cons a c (r ++ f.putTrees x F')
      rw [putTrees, if_neg (Ne.symm hx.1), putTrees_eq_self hx.2.1, ihr hx.2.2]

/-- A forest that is put before the same tree after another one stands behind that one. -/
theorem putTrees_putTrees (hx : x ∉ F.preorder) (F' f : Forest α) :
    (f.putTrees x F).putTrees x F' = f.putTrees x (F ++ F') := by
  induction f with
  | nil => rfl
  | cons a c r ihc ihr =>
      by_cases ha : a = x
      · rw [putTrees, if_pos ha, putTrees_append hx, putTrees, if_pos ha, putTrees, if_pos ha,
          append_assoc]
      · rw [putTrees, if_neg ha, putTrees, if_neg ha, ihc, ihr, putTrees, if_neg ha]

/-- A change below a label of a forest that was put before a tree. -/
theorem update_putTrees (hn : n ∉ f.preorder) (k : Forest α → Forest α) :
    (f.putTrees x F).update n k = f.putTrees x (F.update n k) := by
  have happend : ∀ (F R : Forest α), n ∉ R.preorder → (F ++ R).update n k = F.update n k ++ R :=
    fun F R hR => by
      induction F with
      | nil => exact update_eq_self hR k
      | cons a c r _ ihr =>
          show (cons a c (r ++ R)).update n k = (cons a c r).update n k ++ R
          rw [update, update, ihr]
          split <;> rfl
  induction f with
  | nil => rfl
  | cons a c r ihc ihr =>
      have hncons := hn
      simp only [preorder, List.mem_cons, List.mem_append, not_or] at hn
      by_cases ha : a = x
      · rw [putTrees, if_pos ha, happend _ _ hncons, putTrees, if_pos ha]
      · rw [putTrees, if_neg ha, update, if_neg (Ne.symm hn.1), ihc hn.2.1, ihr hn.2.2, putTrees,
          if_neg ha]

/-- What is below a label of a forest that was put before a tree. -/
theorem below?_putTrees_new (hx : x ∈ f.preorder) (hn : n ∉ f.preorder) :
    (f.putTrees x F).below? n = F.below? n := by
  induction f with
  | nil => cases hx
  | cons a c r ihc ihr =>
      have hncons := hn
      simp only [preorder, List.mem_cons, List.mem_append, not_or] at hn
      by_cases ha : a = x
      · rw [putTrees, if_pos ha, below?_append, below?_eq_none_iff.2 hncons, Option.or_none]
      · have hnone : ∀ d : Forest α, x ∉ d.preorder → n ∉ d.preorder →
            (d.putTrees x F).below? n = none := fun d hxd hnd => by
          rw [putTrees_eq_self hxd, below?_eq_none_iff.2 hnd]
        rw [putTrees, if_neg ha, below?, if_neg (Ne.symm hn.1)]
        rw [preorder, List.mem_cons, List.mem_append, or_iff_right (Ne.symm ha)] at hx
        by_cases hxc : x ∈ c.preorder
        · rw [ihc hxc hn.2.1]
          by_cases hxr : x ∈ r.preorder
          · rw [ihr hxr hn.2.2, Option.or_self]
          · rw [hnone r hxr hn.2.2, Option.or_none]
        · rw [hnone c hxc hn.2.1, Option.none_or, ihr (hx.resolve_left hxc) hn.2.2]

/-- What is below a label of before that is not above the tree. -/
theorem below?_putTrees (hb : b ∉ F.preorder) (hx : ∀ k, f.below? b = some k → x ∉ k.preorder) :
    (f.putTrees x F).below? b = f.below? b := by
  induction f with
  | nil => rfl
  | cons a c r ihc ihr =>
      rw [putTrees]
      split
      · rw [below?_append, below?_eq_none_iff.2 hb, Option.none_or]
      · rw [below?, below?]
        rw [below?] at hx
        split
        · rename_i hab
          rw [putTrees_eq_self (hx c (if_pos hab))]
        · rename_i hab
          rw [if_neg hab] at hx
          rcases hc : c.below? b with _ | k
          · have hnone : ∀ k, c.below? b = some k → x ∉ k.preorder := fun k hk => by
              rw [hc] at hk
              cases hk
            rw [ihc hnone, hc, Option.none_or, Option.none_or]
            exact ihr fun k hk => hx k (by rw [hc, Option.none_or, hk])
          · rw [ihc fun k' hk => hx k' (by rw [hk, Option.some_or]), hc, Option.some_or,
              Option.some_or]

/-- A forest for one label only. -/
def only (x : α) (F : Forest α) (a : α) : Option (Forest α) :=
  if a = x then some F else none

/-- At its label there is the one replacement. -/
@[simp] theorem only_self (x : α) (F : Forest α) : only x F x = some F := if_pos rfl

/-- At any other label there is no replacement. -/
theorem only_of_ne (h : a ≠ x) (F : Forest α) : only x F a = none := if_neg h

/-- The one replacement is found at its label only. -/
theorem only_eq_some {G : Forest α} (h : only x F a = some G) : a = x ∧ G = F := by
  rw [only] at h
  split at h
  · rename_i hax
    exact ⟨hax, (Option.some.inj h).symm⟩
  · cases h

/-- A tree with a forest before it that is taken away is replaced by it. -/
theorem remove_putTrees (hf : f.Distinct) (hx : x ∉ F.preorder) :
    (f.putTrees x F).remove x = f.graft (only x F) id := by
  have happend : ∀ (F R : Forest α), x ∉ F.preorder → (F ++ R).remove x = F ++ R.remove x :=
    fun F R hF => by
      induction F with
      | nil => rfl
      | cons a c r _ ihr =>
          simp only [preorder, List.mem_cons, List.mem_append, not_or] at hF
          show (cons a c (r ++ R)).remove x = cons a c (r ++ R.remove x)
          rw [remove, if_neg (Ne.symm hF.1), remove_eq_self hF.2.1, ihr hF.2.2]
  induction f with
  | nil => rfl
  | cons a c r ihc ihr =>
      obtain ⟨-, har, hc, hr, -⟩ := distinct_cons.1 hf
      by_cases ha : a = x
      · subst ha
        have hrest : ∀ b ∈ r.preorder, only a F b = none := fun b hb =>
          only_of_ne (by rintro rfl; exact har hb) F
        rw [putTrees, if_pos rfl, happend _ _ hx, remove, if_pos rfl,
          graft_cons_some (only_self a F), graft_eq_self hrest]
      · rw [putTrees, if_neg ha, remove, if_neg ha, ihc hc, ihr hr,
          graft_cons_none (only_of_ne ha F), id]

end TileFlow.Forest
