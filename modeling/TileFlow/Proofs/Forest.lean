import TileFlow.Source.Parser

/-!
# Views of forests

The pre-order list of the labels is the view through which forests are described: it carries the
labels of a forest, and numbering a forest in pre-order makes it an interval.

## Main results

* `Forest.preorder_map`, `Forest.number_map`: relabelling.
* `Forest.preorder_number`, `Forest.number_eq_self`: a forest is numbered in pre-order exactly
  when its pre-order list is an interval.
-/

namespace TileFlow.Forest

variable {α β γ : Type}

@[simp] theorem preorder_nil : (nil : Forest α).preorder = [] := rfl

@[simp] theorem preorder_cons (a : α) (children rest : Forest α) :
    (cons a children rest).preorder = a :: (children.preorder ++ rest.preorder) := rfl

/-- As many labels are listed as there are nodes. -/
@[simp] theorem length_preorder (f : Forest α) : f.preorder.length = f.size := by
  induction f with
  | nil => rfl
  | cons a children rest ihc ihr => simp [size, ihc, ihr]

/-- The labels of a mapped forest are the mapped labels. -/
@[simp] theorem preorder_map (g : α → β) (f : Forest α) :
    (f.map g).preorder = f.preorder.map g := by
  induction f with
  | nil => rfl
  | cons a children rest ihc ihr => simp [map, ihc, ihr]

/-- A map keeps the number of nodes. -/
@[simp] theorem size_map (g : α → β) (f : Forest α) : (f.map g).size = f.size := by
  rw [← length_preorder, preorder_map, List.length_map, length_preorder]

/-- Two maps one after the other are one map. -/
theorem map_map (g : β → γ) (h : α → β) (f : Forest α) : (f.map h).map g = f.map (g ∘ h) := by
  induction f with
  | nil => rfl
  | cons a children rest ihc ihr => simp [map, ihc, ihr]

/-- Relabelling depends on the labels of a forest only. -/
theorem map_congr {g h : α → β} {f : Forest α} (hgh : ∀ a ∈ f.preorder, g a = h a) :
    f.map g = f.map h := by
  induction f with
  | nil => rfl
  | cons a children rest ihc ihr =>
      simp only [preorder_cons, List.mem_cons, List.mem_append] at hgh
      rw [map, map, hgh a (.inl rfl), ihc fun b hb => hgh b (.inr (.inl hb)),
        ihr fun b hb => hgh b (.inr (.inr hb))]

/-! ### Numbering -/

/-- Numbering looks at the shape of a forest only. -/
@[simp] theorem number_map (n : Nat) (g : α → β) (f : Forest α) :
    (f.map g).number n = f.number n := by
  induction f generalizing n with
  | nil => rfl
  | cons a children rest ihc ihr => simp [map, number, ihc, ihr]

/-- The labels of a numbered forest are an interval. -/
@[simp] theorem preorder_number (n : Nat) (f : Forest α) :
    (f.number n).preorder = List.range' n f.size := by
  induction f generalizing n with
  | nil => rfl
  | cons a children rest ihc ihr =>
      rw [number, preorder_cons, ihc, ihr, size, List.range'_succ, List.range'_append_1]

/-- A forest whose labels are an interval is numbered. -/
theorem number_eq_self {n : Nat} {f : Forest Nat} (h : f.preorder = List.range' n f.size) :
    f.number n = f := by
  induction f generalizing n with
  | nil => rfl
  | cons a children rest ihc ihr =>
      rw [preorder_cons, size, List.range'_succ] at h
      obtain ⟨rfl, h⟩ := List.cons.inj h
      rw [← List.range'_append_1] at h
      obtain ⟨hc, hr⟩ := List.append_inj h (by simp)
      rw [number, ihc hc, ihr hr]

/-- Labels read at the numbers of a forest give the forest back. -/
theorem map_number {g : Nat → α} {n : Nat} {f : Forest α}
    (h : ∀ i (hi : i < f.preorder.length), g (n + i) = f.preorder[i]) :
    (f.number n).map g = f := by
  induction f generalizing n with
  | nil => rfl
  | cons a children rest ihc ihr =>
      have hroot : g n = a := by simpa using h 0 (by simp)
      have hchildren : (children.number (n + 1)).map g = children := ihc fun i hi => by
        have := h (i + 1) (by simp at hi ⊢; omega)
        simpa [Nat.add_assoc, Nat.add_comm 1, List.getElem_append_left hi] using this
      have hrest : (rest.number (n + 1 + children.size)).map g = rest := ihr fun i hi => by
        have := h (i + 1 + children.size) (by simp at hi ⊢; omega)
        rw [show n + 1 + children.size + i = n + (i + 1 + children.size) by omega, this]
        simp [show i + 1 + children.size = (i + children.size) + 1 by omega,
          List.getElem_append_right]
      rw [number, map, hroot, hchildren, hrest]

end TileFlow.Forest
