import Mathlib.Data.List.TakeWhile
import TileFlow.Proofs.Forest.Expand
import TileFlow.Proofs.Program.Links
import TileFlow.Proofs.Program.Order
import TileFlow.Proofs.Program.Replace
import TileFlow.Proofs.Stage.Action

/-!
# Trees in place of operations

An operation is replaced by trees that are put before it, one after the other, before it is erased
with all below it. Operations that are replaced one after the other may be below each other: what is
put in the place of one that is already set aside is not seen in the body, so that in the end every
operation that is below no other one has been replaced, as the program at its turn tells. Below
itself it is at its turn as it was at first.

## Main definitions

* `Program.OwnsRegions`: a program in which no operation has others below it without a region.
* `Program.Puts`, `Program.Grafts`: trees before an operation, and in its place.
* `Program.SameAt`: an operation that is the same in two programs, with all below it.
* `Program.turn`: the program at the turn of an operation in a list.
* `Program.GraftsEach`: trees in the places of the operations of a list.
* `Program.Outer`: an operation with a name that is below no other one with that name.

## Main results

* `Program.Linked.puts_leaf`, `Program.Puts.append`: how trees grow before an operation.
* `Program.graftsEach`, `Program.GraftsEach.contents`: operations that are replaced one after the
  other.
* `Program.sameAt_turn`: an operation is at its turn as it was.
* `Program.contents_of_grafts`: operations that are replaced by what they were at first.
-/

namespace TileFlow

/-- Mapped leaves are the leaves of the mapped list. -/
theorem Forest.map_leaves {α β : Type} (k : α → β) (l : List α) :
    (leaves l nil).map k = leaves (l.map k) nil := by
  induction l with
  | nil => rfl
  | cons a l ih => rw [leaves_cons, map, ih, List.map_cons, leaves_cons, map]

/-- A leaf inserted behind leaves is the last one. -/
theorem Forest.insertAt_leaves {α : Type} {i : Nat} {l : List α} (hi : l.length ≤ i) (a : α) :
    (leaves l nil).insertAt i a nil = leaves (l ++ [a]) nil := by
  induction l generalizing i with
  | nil => rfl
  | cons b l ih =>
      obtain ⟨j, rfl⟩ : ∃ j, i = j + 1 := ⟨i - 1, by rw [List.length_cons] at hi; omega⟩
      rw [leaves_cons, insertAt, ih (by simpa using hi), List.cons_append, leaves_cons]

/-- In a forest that becomes leaves, every label becomes one of these. -/
theorem Forest.mem_of_map_eq_leaves {α β : Type} {k : α → β} {F : Forest α} {l : List β} {a : α}
    (h : F.map k = leaves l nil) (ha : a ∈ F.preorder) : k a ∈ l := by
  have hmem : k a ∈ (F.map k).preorder := by
    rw [preorder_map]
    exact List.mem_map_of_mem ha
  rwa [h, preorder_leaves, preorder_nil, List.append_nil] at hmem

namespace Program

variable {p q r s : Program} {x y n b : OpId} {F F' : Forest OpId} {parent : Option OpId}
  {op : Operation} {f : OpId → Action Unit} {l : List OpId}

/-! ### Regions -/

/-- Whether every operation with others below it owns a region. -/
def OwnsRegions (p : Program) : Prop :=
  ∀ id, p.children (some id) ≠ [] → (p.op id).hasRegion = true

/-- An operation with others below it was created. -/
theorem Tree.lt_of_children (hp : p.Tree) (h : p.children (some b) ≠ []) : b < p.slots.size := by
  refine Classical.byContradiction fun hge => h ?_
  rw [children, block, below_of_notMem fun hmem => hge (hp.lt b hmem)]
  rfl

/-- Only operations that were created have others below them. -/
theorem Tree.ownsRegions (hp : p.Tree)
    (h : ∀ id < p.slots.size, p.children (some id) ≠ [] → (p.op id).hasRegion = true) :
    p.OwnsRegions := fun id hid => h id (hp.lt_of_children hid) hid

/-- An operation whose parent owns a region leaves the others as they are. -/
theorem op_insertAt_of_region (hregion : ∀ a, parent = some a → (p.op a).hasRegion = true)
    (hb : b < p.slots.size) (i : Nat) (op : Operation) :
    (p.insertAt parent i op).2.op b = p.op b := by
  cases parent with
  | none => exact op_congr (slot_insertAt_none hb i op)
  | some a =>
      by_cases hba : b = a
      · subst hba
        rw [op_insertAt_parent hb, ← hregion b rfl]
      · exact op_congr (slot_insertAt_some hba hb i op)

/-- A new operation is as it was made, unless it is put below itself. -/
theorem op_insertAt_new (hne : parent ≠ some p.slots.size) (i : Nat) (op : Operation) :
    (p.insertAt parent i op).2.op p.slots.size = op := by
  cases parent with
  | none =>
      rw [Program.op, slot_insertAt_new]
      rfl
  | some a =>
      rw [Program.op, slot_insertAt_some_new fun h => hne (congrArg some h)]
      rfl

/-- After a creation operations with others below them own regions. -/
theorem OwnsRegions.insertAt (h : p.OwnsRegions) (hp : p.Tree) (parent : Option OpId) (i : Nat)
    (op : Operation) : (p.insertAt parent i op).2.OwnsRegions := by
  have hq := hp.insertAt parent i op
  intro id hid
  cases parent with
  | none =>
      have hnew := created_insertAt_none hp.sound i op
      obtain ⟨c, hc⟩ := List.exists_mem_of_ne_nil _ hid
      -- The new operation is at the top, and below nothing.
      have hcne : c ≠ p.slots.size := by
        rintro rfl
        have hroot : p.slots.size ∈ (p.insertAt none i op).2.children none :=
          (hnew.roots _).2 (.inr ⟨rfl, rfl⟩)
        have := (hq.parent?_eq hc).symm.trans (hq.parent?_eq hroot)
        cases this
      have hold : p.children (some id) ≠ [] :=
        List.ne_nil_of_mem (hp.mem_children_insertAt_none hcne hc)
      rw [op_insertAt_of_region (fun _ heq => by cases heq) (hp.lt_of_children hold)]
      exact h id hold
  | some a =>
      by_cases hnew : id = p.slots.size
      · rw [hnew, hp.children_insertAt_new] at hid
        exact absurd rfl hid
      by_cases hida : id = a
      · subst hida
        obtain ⟨c, hc⟩ := List.exists_mem_of_ne_nil _ hid
        have hlt : id < p.slots.size := by
          rcases hp.mem_children_insertAt.1 hc with hc | ⟨hmem, -⟩
          · exact hp.lt_of_children (List.ne_nil_of_mem hc)
          · exact hp.lt id hmem
        rw [op_insertAt_parent hlt]
      · rw [hp.children_insertAt (fun heq => hida (Option.some.inj heq))
          fun heq => hnew (Option.some.inj heq)] at hid
        rw [op_congr (slot_insertAt_some hida (hp.lt_of_children hid) i op)]
        exact h id hid

/-- After an erasure operations with others below them own regions. -/
theorem OwnsRegions.erase (h : p.OwnsRegions) (hp : p.Tree) (hx : x < p.slots.size) :
    (p.erase x).OwnsRegions := fun id hid => by
  rw [op_erase]
  refine h id fun hnil => hid ?_
  rw [hp.children_erase hx, hnil]
  rfl

/-- After a change that keeps regions, operations with others below them own regions. -/
theorem OwnsRegions.modify (h : p.OwnsRegions) (hp : p.Tree)
    {f : Operation → Operation} (hf : (f (p.op b)).hasRegion = (p.op b).hasRegion) :
    (p.modify b f).OwnsRegions := fun a ha => by
  by_cases hab : a = b
  · subst hab
    rw [op_modify_self (hp.lt_of_children ha), hf]
    exact h a ha
  · rw [op_modify_of_ne hab]
    exact h a ha

/-- Nothing is below an operation without a region. -/
theorem OwnsRegions.walkIn_eq_nil (h : p.OwnsRegions) (hx : (p.op x).hasRegion = false) : p.walkIn
    x = [] := by
  have hchildren : p.children (some x) = [] := Classical.byContradiction fun hne => by
    rw [h x hne] at hx
    cases hx
  rw [children, block, Forest.roots_eq] at hchildren
  rw [walkIn]
  cases hbelow : p.below x with
  | nil => rfl
  | cons a c f =>
      rw [hbelow] at hchildren
      simp at hchildren

/-! ### Trees before an operation -/

/-- A program with a forest of new operations before an operation, and else as it was. -/
structure Puts (p : Program) (x : OpId) (F : Forest OpId) (q : Program) : Prop where
  tree : q.Tree
  regions : q.OwnsRegions
  evolves : p.Evolves q
  body : q.body = p.body.putTrees x F
  new : ∀ id ∈ F.preorder, p.slots.size ≤ id ∧ id < q.slots.size
  op : ∀ id < p.slots.size, q.op id = p.op id
  linked : ∀ y, p.Linked y → q.Linked y

/-- Nothing is put before an operation when nothing happens. -/
theorem Puts.refl (hp : p.Tree) (hregions : p.OwnsRegions) (x : OpId) : p.Puts x .nil p where
  tree := hp
  regions := hregions
  evolves := .refl hp.sound
  body := (Forest.putTrees_nil x p.body).symm
  new _ h := nomatch h
  op _ _ := rfl
  linked _ h := h

/-- What is put before an operation is new. -/
theorem Puts.notMem (h : p.Puts x F q) (hb : b < p.slots.size) : b ∉ F.preorder := fun hmem =>
  absurd hb (Nat.not_lt.2 (h.new b hmem).1)

/-- What is put before an operation in two parts is put there in their order. -/
theorem Puts.trans (h : p.Puts x F q) (h' : q.Puts x F' r) (hx : x < p.slots.size) :
    p.Puts x (F ++ F') r where
  tree := h'.tree
  regions := h'.regions
  evolves := h.evolves.trans h'.evolves
  body := by rw [h'.body, h.body, Forest.putTrees_putTrees (h.notMem hx)]
  new id hid := by
    rw [Forest.preorder_append, List.mem_append] at hid
    rcases hid with hid | hid
    · exact ⟨(h.new id hid).1, Nat.lt_of_lt_of_le (h.new id hid).2 h'.evolves.size⟩
    · exact ⟨Nat.le_trans h.evolves.size (h'.new id hid).1, (h'.new id hid).2⟩
  op id hid := (h'.op id (Nat.lt_of_lt_of_le hid h.evolves.size)).trans (h.op id hid)
  linked y hy := h'.linked y (h.linked y hy)

/-- A leaf before an operation. -/
theorem Linked.puts_leaf (h : p.Linked x) (hp : p.Tree) (hregions : p.OwnsRegions)
    (op : Operation) : p.Puts x (.single p.slots.size .nil) (p.insertBefore x op).2 ∧
      (p.insertBefore x op).2.op p.slots.size = op := by
  obtain ⟨parent, i, hplace⟩ := h.locate?
  have hbody := h.body_insertBefore hp op
  rw [Forest.putBefore_eq_putTrees] at hbody
  have heq : p.insertBefore x op = p.insertAt parent i op := by rw [Program.insertBefore, hplace]
  have hchild : x ∈ p.children parent :=
    List.mem_of_getElem? (hp.locate?_eq_some_iff.1 hplace)
  have hregion : ∀ a, parent = some a → (p.op a).hasRegion = true := fun a ha =>
    hregions a (ha ▸ List.ne_nil_of_mem hchild)
  have hne : parent ≠ some p.slots.size := fun ha =>
    absurd (hp.lt_of_children (ha ▸ List.ne_nil_of_mem hchild)) (Nat.lt_irrefl _)
  rw [heq] at hbody ⊢
  exact ⟨⟨hp.insertAt parent i op, hregions.insertAt hp parent i op,
    (created_insertAt hp.sound parent i op).evolves hp.sound, hbody,
    fun id hid => by
      obtain rfl : id = p.slots.size := by simpa [Forest.single] using hid
      rw [size_insertAt]
      exact ⟨Nat.le_refl _, Nat.lt_succ_self _⟩,
    fun id hid => op_insertAt_of_region hregion hid i op,
    fun y hy => hy.insertAt hp parent i op⟩, op_insertAt_new hne i op⟩

/-- Leaves before an operation. -/
theorem Linked.puts_putAll (h : p.Linked x) (hp : p.Tree) (hregions : p.OwnsRegions)
    (ops : List Operation) : ∃ F, p.Puts x F (p.putAll x ops) ∧
      F.map (p.putAll x ops).op = .leaves ops .nil := by
  induction ops generalizing p with
  | nil => exact ⟨.nil, .refl hp hregions x, rfl⟩
  | cons op ops ih =>
      obtain ⟨hleaf, hop⟩ := h.puts_leaf hp hregions op
      obtain ⟨F, hF, hmap⟩ := ih (hleaf.linked x h) hleaf.tree hleaf.regions
      refine ⟨_, hleaf.trans hF (h.lt_size hp), ?_⟩
      rw [putAll_cons, Forest.map_append, hmap, Forest.leaves_cons, Forest.single, Forest.map,
        hF.op _ (hleaf.new _ (by simp [Forest.single])).2, hop]
      rfl

/-- One more leaf below the root of a tree before an operation. -/
theorem Puts.append {l : List OpId} (h : p.Puts x (.single n (Forest.leaves l .nil)) q)
    (hp : p.Tree) (hregion : (q.op n).hasRegion = true) (op : Operation) :
    p.Puts x (.single n (Forest.leaves (l ++ [q.slots.size]) .nil)) (q.append (some n) op).2 ∧
      (q.append (some n) op).2.op q.slots.size = op ∧
      ∀ id < q.slots.size, (q.append (some n) op).2.op id = q.op id := by
  obtain ⟨hn, hnq⟩ := h.new n (by simp [Forest.single])
  have hnew : n ∉ p.body.preorder := fun hmem =>
    absurd (hp.sound.created n hmem) (Nat.not_lt.2 hn)
  have hkeep : ∀ id < q.slots.size, (q.append (some n) op).2.op id = q.op id := fun id hid =>
    op_insertAt_of_region (fun a ha => Option.some.inj ha ▸ hregion) hid _ op
  have hbody : (q.append (some n) op).2.body =
      p.body.putTrees x (.single n (Forest.leaves (l ++ [q.slots.size]) .nil)) := by
    rw [Program.append, body_insertAt_some, h.body, Forest.update_putTrees hnew]
    by_cases hx : x ∈ p.body.preorder
    · have hbelow : q.below n = Forest.leaves l .nil := by
        refine below_of_below? ?_
        rw [h.body, Forest.below?_putTrees_new hx hnew, Forest.single, Forest.below?, if_pos rfl]
      have hlength : l.length ≤ (q.children (some n)).length := by
        rw [children, block, hbelow, Forest.roots_eq]
        simp
      rw [Forest.single, Forest.update, if_pos rfl, Forest.insertAt_leaves hlength, Forest.single]
    · rw [Forest.putTrees_eq_self hx, Forest.putTrees_eq_self hx]
  refine ⟨⟨h.tree.insertAt _ _ op, h.regions.insertAt h.tree _ _ op,
    h.evolves.trans ((created_insertAt h.tree.sound _ _ op).evolves h.tree.sound), hbody,
    fun id hid => ?_, fun id hid => ?_, fun y hy => (h.linked y hy).insertAt h.tree _ _ op⟩,
    op_insertAt_new (fun heq => absurd hnq (by rw [Option.some.inj heq]; exact Nat.lt_irrefl _)) _
      op,
    hkeep⟩
  · rw [Program.append, size_insertAt]
    simp only [Forest.single, Forest.preorder_cons, Forest.preorder_leaves, Forest.preorder_nil,
      List.append_nil, List.mem_cons, List.mem_append, List.not_mem_nil, or_false] at hid
    rcases hid with rfl | hid | rfl
    · exact ⟨hn, Nat.lt_succ_of_lt hnq⟩
    · obtain ⟨hle, hlt⟩ := h.new id (by simp [Forest.single, hid])
      exact ⟨hle, Nat.lt_succ_of_lt hlt⟩
    · exact ⟨h.evolves.size, Nat.lt_succ_self _⟩
  · rw [hkeep id (Nat.lt_of_lt_of_le hid h.evolves.size), h.op id hid]

/-- More leaves below the root of a tree before an operation. -/
theorem Puts.appendAll {β : Type} {new : β → Operation} {bs : List β} {l : List OpId}
    (h : p.Puts x (.single n (Forest.leaves l .nil)) q) (hp : p.Tree)
    (hregion : (q.op n).hasRegion = true)
    (hrun : Action.runOn (bs.forM fun b => do let _ ← Action.append n (new b)) q = (.ok (), r)) :
    ∃ l', p.Puts x (.single n (Forest.leaves (l ++ l') .nil)) r ∧ l'.map r.op = bs.map new ∧
      ∀ id < q.slots.size, r.op id = q.op id := by
  induction bs generalizing q l with
  | nil =>
      obtain rfl := Action.forM_nil_ok.1 hrun
      exact ⟨[], by rwa [List.append_nil], rfl, fun _ _ => rfl⟩
  | cons b bs ih =>
      obtain ⟨s, hop, hrun⟩ := Action.forM_cons_ok.1 hrun
      obtain ⟨_, _, happend, hpure⟩ := Action.bind_ok.1 hop
      obtain ⟨-, rfl⟩ := Action.pure_ok.1 hpure
      rw [Action.runOn_append, Prod.mk.injEq] at happend
      obtain ⟨-, rfl⟩ := happend
      obtain ⟨hs, hnew, hold⟩ := h.append hp hregion (new b)
      have hn := (h.new n (by simp [Forest.single])).2
      obtain ⟨l', hr, hl', hkeep⟩ := ih hs (by rw [hold n hn, hregion]) hrun
      have hlt : q.slots.size < (q.append (some n) (new b)).2.slots.size := by
        rw [Program.append, size_insertAt]
        exact Nat.lt_succ_self _
      refine ⟨q.slots.size :: l', by rwa [List.append_cons], ?_, fun id hid => ?_⟩
      · rw [List.map_cons, hl', hkeep _ hlt, hnew, List.map_cons]
      · rw [hkeep id (Nat.lt_trans hid hlt), hold id hid]

/-! ### The same operation in two programs -/

/-- Whether an operation of the body is the same in two programs, with all below it. -/
structure SameAt (p : Program) (x : OpId) (q : Program) : Prop where
  below : ∃ k, p.body.below? x = some k ∧ q.body.below? x = some k
  op : ∀ id, id = x ∨ id ∈ p.walkIn x → q.op id = p.op id

namespace SameAt

/-- The operations below an operation at its place stay. -/
theorem walkIn (h : p.SameAt x q) : q.walkIn x = p.walkIn x := by
  obtain ⟨k, hp, hq⟩ := h.below
  rw [Program.walkIn, Program.walkIn, below_of_below? hp, below_of_below? hq]

/-- The operations with a name below an operation at its place stay. -/
theorem findIn (h : p.SameAt x q) (name : String) : q.findIn x name = p.findIn x name := by
  rw [Program.findIn, Program.findIn, h.walkIn]
  exact List.filter_congr fun id hid => by rw [h.op id (.inr hid)]

/-- What is below an operation that is the same is the same. -/
theorem of_walkIn (h : p.SameAt x q) (hp : p.Sound) (hq : q.Sound) (hy : y ∈ p.walkIn x) :
    p.SameAt y q := by
  obtain ⟨k, hpk, hqk⟩ := h.below
  have hin := hy
  rw [Program.walkIn, below_of_below? hpk] at hin
  obtain ⟨k', hk'⟩ := Forest.mem_preorder_iff.1 hin
  have hpy := Forest.below?_trans hp.distinct hpk hk'
  refine ⟨⟨k', hpy, Forest.below?_trans hq.distinct hqk hk'⟩, fun id hid => h.op id (.inr ?_)⟩
  rcases hid with rfl | hid
  · exact hy
  · exact hp.walkIn_trans (Forest.mem_preorder_of_below? hpk) hy hid

/-- An operation that twice stays at its place does so over both steps. -/
theorem trans (h : p.SameAt x q) (h' : q.SameAt x r) : p.SameAt x r := by
  have hwalk := h.walkIn
  obtain ⟨k, hp, hq⟩ := h.below
  obtain ⟨k', hq', hr⟩ := h'.below
  obtain rfl : k = k' := Option.some.inj (hq.symm.trans hq')
  exact ⟨⟨k, hp, hr⟩, fun id hid => (h'.op id (by rwa [hwalk])).trans (h.op id hid)⟩

end SameAt

/-- An operation is the same when another one is created that is not below it. -/
theorem sameAt_insertAt {a : OpId} (hp : p.Sound) (hx : x ∈ p.walk) (ha : a ∈ p.walk)
    (hne : x ≠ a) (hnot : a ∉ p.walkIn x) (i : Nat) (op : Operation) :
    p.SameAt x (p.insertAt (some a) i op).2 := by
  obtain ⟨k, hk, hbelow⟩ := exists_below hx
  obtain ⟨g, hg, -⟩ := exists_below ha
  refine ⟨⟨k, hk, ?_⟩, fun id hid => op_congr (slot_insertAt_some ?_ ?_ i op)⟩
  · rw [body_insertAt_some]
    exact Forest.below?_insertLeaf_of_notMem hp.distinct hg hk hp.notMem_walk hne
      (by rwa [← hbelow]) i
  · rintro rfl
    exact hid.elim (fun heq => hne heq.symm) hnot
  · rcases hid with rfl | hid
    · exact hp.created id hx
    · exact hp.lt_size_of_walkIn hid

/-- An operation is the same when another one is erased that is neither above nor below it. -/
theorem sameAt_erase (hp : p.Tree) (hx : x ∈ p.walk) (hne : x ≠ y) (hxy : x ∉ p.walkIn y)
    (hyx : y ∉ p.walkIn x) : p.SameAt x (p.erase y) := by
  obtain ⟨k, hk, hbelow⟩ := exists_below hx
  refine ⟨⟨k, hk, ?_⟩, fun id _ => op_erase p y id⟩
  rw [body_erase, Forest.below?_remove hp.distinct_body hne hk fun g hg => ?_,
    Forest.remove_eq_self (by rwa [← hbelow])]
  rwa [← below_of_below? hg]

/-- An operation before which others are put stays at its place. -/
theorem Puts.sameAt (h : p.Puts x F q) (hp : p.Tree) (hx : x ∈ p.walk) : p.SameAt x q := by
  obtain ⟨k, hk, hbelow⟩ := exists_below hx
  have hself : x ∉ k.preorder := (hp.distinct_body.below hk).2.1
  refine ⟨⟨k, hk, ?_⟩, fun id hid => h.op id ?_⟩
  · rw [h.body, Forest.below?_putTrees (h.notMem (hp.sound.created x hx)) fun k' hk' => ?_, hk]
    rw [hk, Option.some.injEq] at hk'
    exact hk' ▸ hself
  · rcases hid with rfl | hid
    · exact hp.sound.created id hx
    · exact hp.sound.lt_size_of_walkIn hid

/-! ### Trees in the place of an operation -/

/-- A program with a forest of new operations in the place of an operation, and else as it was. -/
structure Grafts (p : Program) (x : OpId) (F : Forest OpId) (q : Program) : Prop where
  tree : q.Tree
  regions : q.OwnsRegions
  evolves : p.Evolves q
  body : q.body = p.body.graft (Forest.only x F) id
  new : ∀ id ∈ F.preorder, p.slots.size ≤ id ∧ id < q.slots.size
  op : ∀ id < p.slots.size, q.op id = p.op id
  linked : ∀ y, p.Linked y → y ≠ x → q.Linked y

/-- An operation that is erased after others were put before it is replaced by these. -/
theorem Puts.erase (h : p.Puts x F q) (hp : p.Tree) (hx : p.Linked x) :
    p.Grafts x F (q.erase x) where
  tree := h.tree.erase ((h.linked x hx).lt_size h.tree)
  regions := h.regions.erase h.tree ((h.linked x hx).lt_size h.tree)
  evolves := h.evolves.trans
    ((cut_erase h.tree.sound ((h.linked x hx).lt_size h.tree)).evolves h.tree.sound)
  body := by
    rw [body_erase, h.body, Forest.remove_putTrees hp.distinct_body (h.notMem (hx.lt_size hp))]
  new id hid := by
    rw [size_erase]
    exact h.new id hid
  op id hid := by rw [op_erase, h.op id hid]
  linked y hy hne := (h.linked y hy).erase h.tree hne

/-- An operation is replaced by leaves. -/
theorem Linked.grafts_replace (h : p.Linked x) (hp : p.Tree) (hregions : p.OwnsRegions)
    (ops : List Operation) : ∃ F, p.Grafts x F (p.replace x ops) ∧
      F.map (p.replace x ops).op = .leaves ops .nil := by
  obtain ⟨F, hF, hmap⟩ := h.puts_putAll hp hregions ops
  refine ⟨F, hF.erase hp h, ?_⟩
  rw [Program.replace, Forest.map_congr fun id _ => op_erase _ x id, hmap]

/-! ### The operations of a list -/

/-- The program at the turn of an operation in a list, when those before it have been dealt with. -/
def turn (p : Program) (f : OpId → Action Unit) (l : List OpId) (x : OpId) : Program :=
  (Action.runOn ((l.takeWhile (· ≠ x)).forM f) p).2

/-- The first operation of a loop is its turn at the start. -/
theorem turn_self (p : Program) (f : OpId → Action Unit) (l : List OpId) (x : OpId) :
    p.turn f (x :: l) x = p := by
  rw [turn, List.takeWhile_cons_of_neg (by simp)]
  rfl

/-- After its first round a loop goes on with the others. -/
theorem turn_cons (hne : x ≠ y) (h : Action.runOn (f x) p = (.ok (), r)) :
    p.turn f (x :: l) y = r.turn f l y := by
  rw [turn, List.takeWhile_cons_of_pos (by simpa using hne)]
  show (Action.runOn (f x >>= fun _ => (l.takeWhile (· ≠ y)).forM f) p).2 = _
  rw [Action.runOn_bind, h, turn]

/-- A program with forests in the places of the operations of a list, as its operations tell. -/
theorem contents_of_graft {F : OpId → Forest OpId}
    (h : q.body = p.body.graft (fun x => if x ∈ l then some (F x) else none) id) : q.contents =
      p.body.graft (fun x => if x ∈ l then some ((F x).map q.op) else none) q.op := by
  rw [Program.contents, ← Forest.graft_eq_map (g := fun _ => none) fun _ _ => rfl, h,
    Forest.graft_graft fun _ _ _ _ _ => rfl]
  refine congrArg (fun g => Forest.graft g q.op p.body) (funext fun x => ?_)
  split <;> rfl

/-- Operations that are replaced one after the other, each as the program at its turn tells. -/
structure GraftsEach (p : Program) (f : OpId → Action Unit) (l : List OpId)
    (D : Program → OpId → Forest Operation → Prop) (F : OpId → Forest OpId) (q : Program) :
    Prop where
  tree : q.Tree
  body : q.body = p.body.graft (fun x => if x ∈ l then some (F x) else none) id
  new : ∀ x ∈ l, ∀ id ∈ (F x).preorder, p.slots.size ≤ id
  size : p.slots.size ≤ q.slots.size
  op : ∀ id < p.slots.size, q.op id = p.op id
  turns : ∀ x ∈ l, D (p.turn f l x) x ((F x).map q.op)

/-- A loop each of whose rounds replaces one operation by a forest replaces all of them, and each
forest is told by the program at its turn. -/
theorem graftsEach {D : Program → OpId → Forest Operation → Prop}
    (round : ∀ x r s, r.Tree → r.OwnsRegions → r.Linked x → Action.runOn (f x) r = (.ok (), s) →
      ∃ F, r.Grafts x F s ∧ D r x (F.map s.op))
    (hp : p.Tree) (hregions : p.OwnsRegions) (hlinked : ∀ x ∈ l, p.Linked x) (hl : l.Nodup)
    (h : Action.runOn (l.forM f) p = (.ok (), q)) : ∃ F, p.GraftsEach f l D F q := by
  induction l generalizing p with
  | nil =>
      obtain rfl := Action.forM_nil_ok.1 h
      exact ⟨fun _ => .nil, ⟨hp, (Forest.graft_eq_self fun _ _ => if_neg List.not_mem_nil).symm,
        fun _ hx => absurd hx List.not_mem_nil, Nat.le_refl _, fun _ _ => rfl,
        fun _ hx => absurd hx List.not_mem_nil⟩⟩
  | cons x l ih =>
      obtain ⟨r, hx, hrest⟩ := Action.forM_cons_ok.1 h
      obtain ⟨hfresh, hl⟩ := List.nodup_cons.1 hl
      obtain ⟨G, hr, hG⟩ := round x p r hp hregions (hlinked x List.mem_cons_self) hx
      have hne : ∀ y ∈ l, y ≠ x := fun y hy heq => hfresh (heq ▸ hy)
      have hlt : ∀ y ∈ l, y < p.slots.size := fun y hy =>
        (hlinked y (List.mem_cons_of_mem _ hy)).lt_size hp
      obtain ⟨F, hF⟩ := ih hr.tree hr.regions
        (fun y hy => hr.linked y (hlinked y (List.mem_cons_of_mem _ hy)) (hne y hy)) hl hrest
      have hsize := hr.evolves.size
      have hkeep : ∀ y ∈ l, Function.update F x G y = F y := fun y hy =>
        Function.update_of_ne (hne y hy) _ _
      refine ⟨Function.update F x G, ⟨hF.tree, ?_,
        List.forall_mem_cons.2 ⟨fun id hid => ?_, fun y hy id hid => ?_⟩,
        Nat.le_trans hsize hF.size, fun id hid => ?_, List.forall_mem_cons.2 ⟨?_, fun y hy => ?_⟩⟩⟩
      · -- What was put for `x` is new, so that no later operation is in it.
        rw [hF.body, hr.body, Forest.graft_graft]
        · refine congrArg (fun g => Forest.graft g id p.body) (funext fun y => ?_)
          by_cases hyx : y = x
          · subst hyx
            simp [Forest.map_eq_self]
          · simp [Forest.only_of_ne hyx, hyx]
        · intro a K ha c hc
          obtain ⟨-, rfl⟩ := Forest.only_eq_some ha
          exact if_neg fun hcl => absurd (hlt c hcl) (Nat.not_lt.2 (hr.new c hc).1)
      · rw [Function.update_self] at hid
        exact (hr.new id hid).1
      · rw [hkeep y hy] at hid
        exact Nat.le_trans hsize (hF.new y hy id hid)
      · rw [hF.op id (Nat.lt_of_lt_of_le hid hsize), hr.op id hid]
      · rw [turn_self, Function.update_self, Forest.map_congr fun id hid =>
          hF.op id (hr.new id hid).2]
        exact hG
      · rw [turn_cons (Ne.symm (hne y hy)) hx, hkeep y hy]
        exact hF.turns y hy

/-- What is before an operation in a list. -/
theorem takeWhile_ne_append {A B : List OpId} (hx : x ∉ A) :
    (A ++ x :: B).takeWhile (· ≠ x) = A := by
  rw [List.takeWhile_append_of_pos fun y hy => decide_eq_true (by rintro rfl; exact hx hy),
    List.takeWhile_cons_of_neg (by simp), List.append_nil]

/-- A list is split at the first place of an element. -/
theorem exists_takeWhile_append (hx : x ∈ l) : ∃ B, l = l.takeWhile (· ≠ x) ++ x :: B := by
  obtain ⟨A, B, rfl, hA⟩ := List.eq_append_cons_of_mem hx
  exact ⟨B, by rw [takeWhile_ne_append hA]⟩

/-- The run up to the turn of an operation. -/
theorem turn_ok (hx : x ∈ l) (h : Action.runOn (l.forM f) p = (.ok (), q)) :
    Action.runOn ((l.takeWhile (· ≠ x)).forM f) p = (.ok (), p.turn f l x) := by
  obtain ⟨B, hB⟩ := exists_takeWhile_append hx
  rw [hB] at h
  obtain ⟨r, hbefore, -⟩ := Action.forM_append_ok.1 h
  rw [turn, hbefore]

/-- The operations before one in a list are replaced by its turn. -/
theorem graftsEach_turn {D : Program → OpId → Forest Operation → Prop}
    (round : ∀ x r s, r.Tree → r.OwnsRegions → r.Linked x → Action.runOn (f x) r = (.ok (), s) →
      ∃ F, r.Grafts x F s ∧ D r x (F.map s.op))
    (hp : p.Tree) (hregions : p.OwnsRegions) (hlinked : ∀ x ∈ l, p.Linked x) (hl : l.Nodup)
    (h : Action.runOn (l.forM f) p = (.ok (), q)) (hx : x ∈ l) :
    ∃ F, p.GraftsEach f (l.takeWhile (· ≠ x)) D F (p.turn f l x) :=
  have hsub := List.takeWhile_sublist (· ≠ x)
  graftsEach round hp hregions (fun y hy => hlinked y (hsub.subset hy)) (hl.sublist hsub)
    (turn_ok hx h)

namespace GraftsEach

variable {D : Program → OpId → Forest Operation → Prop} {F : OpId → Forest OpId}

/-- What is below an operation that is not replaced. -/
theorem below? (h : p.GraftsEach f l D F q) (hp : p.Tree) (hb : b ∈ p.walk) (hbl : b ∉ l)
    (hout : ∀ y ∈ l, b ∉ p.walkIn y) : q.body.below? b =
      some ((p.below b).graft (fun x => if x ∈ l then some (F x) else none) id) := by
  obtain ⟨k, hk, hbelow⟩ := exists_below hb
  rw [h.body, hbelow]
  refine Forest.below?_graft hp.distinct_body hk (if_neg hbl) (fun y k' hy hmem => ?_)
    fun a G ha hmem => ?_
  · refine if_neg fun hyl => hout y hyl ?_
    rwa [walkIn, below_of_below? hy]
  · split at ha
    · rename_i hal
      obtain rfl := Option.some.inj ha
      exact absurd (hp.sound.created b hb) (Nat.not_lt.2 (h.new a hal b hmem))
    · cases ha

/-- An operation is the same when those that are replaced are neither above nor below it. -/
theorem sameAt (h : p.GraftsEach f l D F q) (hp : p.Tree) (hb : b ∈ p.walk) (hbl : b ∉ l)
    (hout : ∀ y ∈ l, b ∉ p.walkIn y) (hin : ∀ y ∈ l, y ∉ p.walkIn b) : p.SameAt b q := by
  obtain ⟨k, hk, hbelow⟩ := exists_below hb
  refine ⟨⟨k, hk, ?_⟩, fun id hid => h.op id ?_⟩
  · rw [h.below? hp hb hbl hout, hbelow, Forest.graft_eq_self fun y hy => ?_]
    exact if_neg fun hyl => hin y hyl (by rwa [walkIn, hbelow])
  · rcases hid with rfl | hid
    · exact hp.sound.created id hb
    · exact hp.sound.lt_size_of_walkIn hid

/-- The program with what stands in the places of the operations that were replaced. -/
theorem contents (h : p.GraftsEach f l D F q) (hp : p.Tree) : q.contents =
    p.body.graft (fun x => if x ∈ l then some ((F x).map q.op) else none) p.op := by
  rw [contents_of_graft h.body]
  exact Forest.graft_congr hp.distinct_body (fun a ha => h.op a (hp.sound.created a ha))
    fun _ _ _ => rfl

/-- The operations with a name that none of the new ones has, below one that is not replaced: those
that are left when the others are taken out. -/
theorem findIn {name : String} (h : p.GraftsEach f l D F q) (hp : p.Tree) (hb : b ∈ p.walk)
    (hbl : b ∉ l) (hout : ∀ y ∈ l, b ∉ p.walkIn y)
    (hname : ∀ y ∈ l, ∀ id ∈ (F y).preorder, (q.op id).is name = false) : q.findIn b name =
      ((p.below b).prune fun y => decide (y ∈ l)).preorder.filter fun id => (p.op id).is name := by
  rw [Program.findIn, walkIn, below_of_below? (h.below? hp hb hbl hout),
    Forest.filter_preorder_graft fun a G ha id hid => ?_]
  · rw [Forest.prune_congr (Q := fun y => decide (y ∈ l)) fun a _ => by split <;> simp [*]]
    refine List.filter_congr fun id hid => ?_
    rw [h.op id (hp.sound.lt_size_of_walkIn (a := b) (Forest.mem_preorder_of_prune hid).1)]
  · split at ha
    · rename_i hal
      obtain rfl := Option.some.inj ha
      exact hname a hal id hid
    · cases ha

end GraftsEach

/-- An operation that is below no other one of a list is the same at its turn, if none of those
before it is below it. -/
theorem sameAt_turn {D : Program → OpId → Forest Operation → Prop}
    (round : ∀ x r s, r.Tree → r.OwnsRegions → r.Linked x → Action.runOn (f x) r = (.ok (), s) →
      ∃ F, r.Grafts x F s ∧ D r x (F.map s.op))
    (hp : p.Tree) (hregions : p.OwnsRegions) (hlinked : ∀ x ∈ l, p.Linked x) (hl : l.Nodup)
    (horder : l.Pairwise fun x y => y ∈ p.walk → x ∉ p.walkIn y)
    (h : Action.runOn (l.forM f) p = (.ok (), q)) (hx : x ∈ l) (hwalk : x ∈ p.walk)
    (hout : ∀ y ∈ l, x ∉ p.walkIn y) : (p.turn f l x).Tree ∧ p.SameAt x (p.turn f l x) := by
  obtain ⟨F, hF⟩ := graftsEach_turn round hp hregions hlinked hl h hx
  have hsub : (l.takeWhile (· ≠ x)).Sublist l := List.takeWhile_sublist _
  refine ⟨hF.tree, hF.sameAt hp hwalk (fun hmem => ?_) (fun y hy => hout y (hsub.subset hy))
    fun y hy => ?_⟩
  · simpa using List.mem_takeWhile_imp hmem
  · obtain ⟨B, hB⟩ := exists_takeWhile_append hx
    rw [hB] at horder
    exact (List.pairwise_append.1 horder).2.2 y hy x List.mem_cons_self hwalk

/-! ### The operations with a name -/

/-- Whether an operation with a name is below a device, and below no other one with that name. -/
def Outer (p : Program) (device : OpId) (name : String) (x : OpId) : Prop :=
  x ∈ p.findIn device name ∧ ∀ y ∈ p.findIn device name, x ∉ p.walkIn y

section Find

variable {device : OpId} {name : String}

/-- The operations of a device stand in the body. -/
theorem Tree.linked_of_findIn (hp : p.Tree) (hdevice : device ∈ p.walk) :
    ∀ x ∈ p.findIn device name, p.Linked x := fun _ hx =>
  hp.sound.linked (hp.sound.mem_walk_of_walkIn hdevice (List.mem_filter.1 hx).1)

/-- No operation is below a later one. -/
theorem Tree.pairwise_notMem_walkIn (hp : p.Tree) (hdevice : device ∈ p.walk) (name : String) :
    (p.findIn device name).Pairwise fun x y => y ∈ p.walk → x ∉ p.walkIn y :=
  (hp.sound.pairwise_findIn hdevice name).imp fun hxy hy hmem =>
    pair_sublist_asymm hp.sound.distinct hxy (hp.sound.precedes_of_walkIn hy hmem)

/-- The device is not below an operation that is below it. -/
theorem Tree.notMem_walkIn_of_findIn (hp : p.Tree) (hdevice : device ∈ p.walk) :
    ∀ x ∈ p.findIn device name, device ∉ p.walkIn x := fun x hx hmem => by
  have hin := (List.mem_filter.1 hx).1
  exact pair_sublist_asymm hp.sound.distinct (hp.sound.precedes_of_walkIn hdevice hin)
    (hp.sound.precedes_of_walkIn (hp.sound.mem_walk_of_walkIn hdevice hin) hmem)

end Find

/-! ### The operations of a list with what they were -/

/-- Operations that are replaced one after the other, none of them by something that depends on more
than what is below it: in the end each one that is below no other has been replaced as it was. -/
theorem contents_of_grafts {D : Program → OpId → Forest Operation}
    {C : Program → OpId → Prop}
    (hlocal : ∀ p q x, p.Sound → q.Sound → p.SameAt x q → D q x = D p x ∧ (C q x → C p x))
    (round : ∀ x r s, r.Tree → r.OwnsRegions → r.Linked x → Action.runOn (f x) r = (.ok (), s) →
      ∃ F, r.Grafts x F s ∧ (x ∈ r.walk → F.map s.op = D r x ∧ C r x))
    (hp : p.Tree) (hregions : p.OwnsRegions) (hlinked : ∀ x ∈ l, p.Linked x)
    (hl : l.Nodup) (horder : l.Pairwise fun x y => y ∈ p.walk → x ∉ p.walkIn y)
    (h : Action.runOn (l.forM f) p = (.ok (), q)) :
    q.contents = p.body.graft (fun x => if x ∈ l then some (D p x) else none) p.op ∧
      ∀ x ∈ l, x ∈ p.walk → (∀ y ∈ l, x ∉ p.walkIn y) → C p x := by
  let E := fun (r : Program) x G => x ∈ r.walk → G = D r x ∧ C r x
  obtain ⟨F, hF⟩ := graftsEach (D := E) round hp hregions hlinked hl h
  have hturn : ∀ x ∈ l, x ∈ p.walk → (∀ y ∈ l, x ∉ p.walkIn y) →
      (F x).map q.op = D p x ∧ C p x := fun x hx hwalk hout => by
    obtain ⟨htree, hsame⟩ :=
      sameAt_turn (D := E) round hp hregions hlinked hl horder h hx hwalk hout
    obtain ⟨k, -, hk⟩ := hsame.below
    obtain ⟨hmap, hcheck⟩ := hF.turns x hx (Forest.mem_preorder_of_below? hk)
    obtain ⟨heq, hchecks⟩ := hlocal p _ x hp.sound htree.sound hsame
    exact ⟨hmap.trans heq, hchecks hcheck⟩
  refine ⟨?_, fun x hx hwalk hout => (hturn x hx hwalk hout).2⟩
  rw [hF.contents hp]
  refine Forest.graft_congr hp.distinct_body (fun _ _ => rfl) fun a ha hout => ?_
  split
  · rename_i hal
    refine congrArg some (hturn a hal ha fun y hy hmem => ?_).1
    obtain ⟨k, hk, hbelow⟩ := exists_below (hp.sound.mem_walk_of_below hmem ha)
    have := hout y k hk (by rwa [walkIn, hbelow] at hmem)
    rw [if_pos hy] at this
    cases this
  · rfl

/-- What takes the place of the operations with a name below a device. -/
def expansion (p : Program) (device : OpId) (name : String)
    (D : Program → OpId → Forest Operation) (x : OpId) : Option (Forest Operation) :=
  if x ∈ p.findIn device name then some (D p x) else none

/-- The operations with a name below a device are replaced one after the other. -/
theorem findIn_grafts {D : Program → OpId → Forest Operation} {C : Program → OpId → Prop}
    {device : OpId} {name : String}
    (hlocal : ∀ p q x, p.Sound → q.Sound → p.SameAt x q → D q x = D p x ∧ (C q x → C p x))
    (round : ∀ x r s, r.Tree → r.OwnsRegions → r.Linked x → Action.runOn (f x) r = (.ok (), s) →
      ∃ F, r.Grafts x F s ∧ (x ∈ r.walk → F.map s.op = D r x ∧ C r x))
    (hp : p.Tree) (hregions : p.OwnsRegions) (hdevice : device ∈ p.walk)
    (h : Action.runOn ((p.findIn device name).forM f) p = (.ok (), q)) :
    q.contents = p.body.graft (p.expansion device name D) p.op ∧
      ∀ x, p.Outer device name x → C p x := by
  obtain ⟨hcontents, hchecks⟩ := contents_of_grafts hlocal round hp hregions
    (hp.linked_of_findIn hdevice) (hp.sound.nodup_findIn hdevice name)
    (hp.pairwise_notMem_walkIn hdevice name) h
  exact ⟨hcontents, fun x hx => hchecks x hx.1
    (hp.sound.mem_walk_of_walkIn hdevice (List.mem_filter.1 hx.1).1) hx.2⟩

end Program

end TileFlow
