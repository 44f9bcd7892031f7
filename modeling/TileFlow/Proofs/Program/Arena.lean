import Mathlib.Data.Finset.Card
import Mathlib.Data.Finset.Range
import Mathlib.Order.Monotone.Basic
import TileFlow.Program.Arena
import TileFlow.Proofs.Program.Arrangement
import TileFlow.Proofs.Program.Links

/-!
# Arenas of programs

A program keeps its operations in one forest, an arena in links that are stored twice over. The
arena of a program stores the links that the forest gives, and what is read in the one is read in
the other. An edit of an arena writes a few links and leaves all others alone. It makes of the arena
of a program the arena of the program after the same edit, provided that every operation has a
place, as every edit leaves it. So a run of edits is the same run on both.

## Main definitions

* `Arena.Ends`: nodes from which a walk comes to an end.
* `Program.arena`: the arena of a program.
* `Program.Complete`: programs in which every operation has a place.
* `Program.Mirrored`, `Program.Mirrors`: edits that are the same edit of the arena, and runs of
  them.

## Main results

* `Arena.Ends.nodes_size`: no walk that comes to an end is cut off.
* `Program.Complete.walk?_arena`, `Program.Complete.position?_arena`: what is read.
* `Program.Complete.insertAt?_arena`, `Program.Complete.erase?_arena`,
  `Program.Complete.moveTo?_arena`: what edits make.
-/

namespace TileFlow

namespace Arena.Node

/-- The node of an operation holds this operation. -/
@[simp] theorem op_ofOperation (op : Operation) : (ofOperation op).op = op := by
  cases op with
  | mk name result operands attributes hasRegion => cases hasRegion <;> rfl

/-- The node of an operation lists nothing. -/
@[simp] theorem block_ofOperation (op : Operation) : (ofOperation op).block = [] := by
  cases op with
  | mk name result operands attributes hasRegion => cases hasRegion <;> rfl

end Arena.Node

namespace Arena

variable {a : Arena} {f : Forest OpId}

/-- Whether the nodes of a forest list what is below them there. -/
def Follows (a : Arena) : Forest OpId → Prop
  | .nil => True
  | .cons id below rest =>
    a.children? (some id) = some below.roots ∧ a.Follows below ∧ a.Follows rest

/-- The arena with nodes marked as erased. -/
def mark (a : Arena) (ids : List OpId) : Arena :=
  { a with nodes := a.nodes.mapIdx fun id n => { n with erased := n.erased || decide (id ∈ ids) } }

/-- A forest whose nodes list what is below them is walked in pre-order, no deeper than it has
nodes. -/
theorem Follows.foldlM (h : a.Follows f) {depth : Nat} (hdepth : f.preorder.length ≤ depth)
    (out : List OpId) :
    f.roots.foldlM (a.walkInto? depth) out = some (out ++ f.preorder) := by
  induction f generalizing depth out with
  | nil => simp [Forest.roots]
  | cons id below rest ihbelow ihrest =>
      obtain ⟨hid, hbelow, hrest⟩ := h
      rw [Forest.preorder_cons, List.length_cons, List.length_append] at hdepth
      obtain ⟨depth, rfl⟩ := Nat.exists_eq_add_one_of_ne_zero (show depth ≠ 0 by omega)
      have hinto : a.walkInto? (depth + 1) out id = some (out ++ id :: below.preorder) := by
        rw [walkInto?, hid]
        exact (ihbelow hbelow (by omega) _).trans (by simp)
      rw [Forest.roots, List.foldlM_cons, hinto]
      exact (ihrest hrest (by omega) _).trans (by simp)

/-- What an arena lists are nodes of it. -/
theorem Follows.lt_size (h : a.Follows f) : ∀ id ∈ f.preorder, id < a.nodes.size := by
  induction f with
  | nil => simp
  | cons id below rest ihbelow ihrest =>
      obtain ⟨hid, hbelow, hrest⟩ := h
      obtain ⟨n, hn, -⟩ := Option.map_eq_some_iff.1 hid
      rw [Forest.preorder_cons]
      rintro j (_ | ⟨_, hj⟩)
      · exact (Array.getElem?_eq_some_iff.1 hn).1
      · exact (List.mem_append.1 hj).elim (ihbelow hbelow j) (ihrest hrest j)

/-- A walk of a forest of distinct nodes is no deeper than there are nodes. -/
theorem Follows.walk (h : a.Follows f) (hf : f.Distinct) (out : List OpId) :
    f.roots.foldlM (a.walkInto? a.nodes.size) out = some (out ++ f.preorder) := by
  have hsub : f.preorder ⊆ List.range a.nodes.size := fun id hid =>
    List.mem_range.2 (h.lt_size id hid)
  have hlength : f.preorder.length ≤ a.nodes.size := by
    simpa using (List.Nodup.subperm hf hsub).length_le
  exact h.foldlM hlength out

/-! ### The depth of a walk -/

/-- Whether a walk from a node comes to an end within a depth. -/
inductive Ends (a : Arena) : (depth : Nat) → OpId → Prop
  | intro {depth : Nat} {id : OpId} {block : List OpId} (hid : a.children? (some id) = some block)
      (hblock : ∀ child ∈ block, a.Ends depth child) : a.Ends (depth + 1) id

/-- A walk that comes to an end does so within any greater depth. -/
theorem Ends.mono {depth depth' : Nat} {id : OpId} (h : a.Ends depth id) (hle : depth ≤ depth') :
    a.Ends depth' id := by
  induction h generalizing depth' with
  | intro hid hblock ih =>
      obtain ⟨depth', rfl⟩ := Nat.exists_eq_add_one_of_ne_zero (show depth' ≠ 0 by omega)
      exact .intro hid fun child hchild => ih child hchild (by omega)

/-- A node from which a walk comes to an end is one of the arena. -/
theorem Ends.lt_size {depth : Nat} {id : OpId} (h : a.Ends depth id) : id < a.nodes.size := by
  obtain ⟨hid, -⟩ := h
  obtain ⟨n, hn, -⟩ := Option.map_eq_some_iff.1 hid
  exact (Array.getElem?_eq_some_iff.1 hn).1

/-- The walk gives a list exactly if it comes to an end within the depth. -/
theorem isSome_walkInto?_iff {depth : Nat} {out : List OpId} {id : OpId} :
    (a.walkInto? depth out id).isSome ↔ a.Ends depth id := by
  induction depth generalizing out id with
  | zero => exact ⟨nofun, nofun⟩
  | succ depth ih =>
      have hfold (block out : List OpId) :
          (block.foldlM (a.walkInto? depth) out).isSome ↔ ∀ child ∈ block, a.Ends depth child := by
        induction block generalizing out with
        | nil => simp
        | cons child block ihblock =>
            rw [List.foldlM_cons, List.forall_mem_cons, ← @ih out child]
            cases a.walkInto? depth out child <;> simp [ihblock]
      rw [walkInto?]
      rcases hid : a.children? (some id) with _ | block
      · refine ⟨nofun, fun ⟨hid', _⟩ => ?_⟩
        rw [hid] at hid'
        cases hid'
      · refine (hfold block _).trans ⟨.intro hid, fun ⟨hid', hblock⟩ => ?_⟩
        rw [hid] at hid'
        cases hid'
        exact hblock

/-- **The depth of a walk.** A walk that comes to an end does so within the depth that walks are
bounded by, so the bound takes no walk away. -/
theorem Ends.nodes_size {depth : Nat} {id : OpId} (h : a.Ends depth id) :
    a.Ends a.nodes.size id := by
  classical
  -- The nodes from which a walk ends within a depth grow with it until they stay the same.
  let ended (depth : Nat) : Finset OpId := (Finset.range a.nodes.size).filter (a.Ends depth)
  have hmem {depth id} : id ∈ ended depth ↔ a.Ends depth id := by
    simpa [ended] using Ends.lt_size
  have hsub {m k : Nat} (hmk : m ≤ k) : ended m ⊆ ended k := fun id hid =>
    hmem.2 ((hmem.1 hid).mono hmk)
  have hstable (m : Nat) (hm : (ended m).card = (ended (m + 1)).card) :
      (ended (m + 1)).card = (ended (m + 2)).card := by
    have heq := Finset.eq_of_subset_of_card_le (hsub m.le_succ) hm.ge
    congr 1
    refine (hsub (m + 1).le_succ).antisymm fun id hid => hmem.2 ?_
    obtain ⟨hid, hblock⟩ := hmem.1 hid
    exact .intro hid fun child hchild => hmem.1 (heq ▸ hmem.2 (hblock child hchild))
  have hcard : (ended (a.nodes.size + depth)).card = (ended a.nodes.size).card :=
    Nat.stabilises_of_monotone (fun m k hmk => Finset.card_le_card (hsub hmk))
      (fun m => (Finset.card_filter_le _ _).trans_eq (Finset.card_range _)) hstable (by omega)
  have hall := Finset.eq_of_subset_of_card_le (hsub (Nat.le_add_right _ depth)) hcard.le
  exact hmem.1 (hall ▸ hmem.2 (h.mono (Nat.le_add_left _ _)))

/-! ### Marks -/

/-- Marking nodes leaves the lists alone. -/
theorem children?_mark (ids : List OpId) (b : Option OpId) :
    (a.mark ids).children? b = a.children? b := by
  cases b with
  | none => rfl
  | some id =>
      rw [children?, children?, mark, Array.getElem?_mapIdx, Option.map_map]
      rfl

/-- Marking nodes leaves the forest that they list. -/
theorem Follows.mark (h : a.Follows f) (ids : List OpId) : (a.mark ids).Follows f := by
  induction f with
  | nil => trivial
  | cons id below rest ihbelow ihrest =>
      exact ⟨(children?_mark ids _).trans h.1, ihbelow h.2.1, ihrest h.2.2⟩

/-- Marking twice is marking all nodes of both lists. -/
theorem mark_mark (ids ids' : List OpId) : (a.mark ids).mark ids' = a.mark (ids ++ ids') := by
  rw [Arena.mark, Arena.mark, Arena.mark, Array.mapIdx_mapIdx]
  simp [Function.comp_def, Bool.or_assoc]

/-- Only which nodes are marked matters, not in which order. -/
theorem mark_congr {ids ids' : List OpId} (h : ∀ id, id ∈ ids ↔ id ∈ ids') :
    a.mark ids = a.mark ids' := by
  simp only [Arena.mark, h]

/-- Marking no node changes nothing. -/
theorem mark_nil : a.mark [] = a := by
  have hnodes : (a.mark []).nodes = a.nodes := Array.ext_getElem? fun j => by
    rw [Arena.mark, Array.getElem?_mapIdx]
    cases a.nodes[j]? <;> simp
  calc a.mark [] = { a with nodes := (a.mark []).nodes } := rfl
    _ = a := by rw [hnodes]

/-- A node is marked with all that it lists, its last child first. -/
theorem Follows.markAll? (h : a.Follows f) (steps : Nat) (stack : List OpId) :
    a.markAll? (f.preorder.length + steps) (f.roots.reverse ++ stack) =
      (a.mark f.preorder).markAll? steps stack := by
  induction f generalizing a steps stack with
  | nil =>
      rw [Forest.roots, Forest.preorder_nil, mark_nil, List.length_nil, Nat.zero_add]
      rfl
  | cons id below rest ihbelow ihrest =>
      obtain ⟨hid, hbelow, hrest⟩ := h
      have hlt : id < a.nodes.size := Follows.lt_size (f := .cons id below rest)
        ⟨hid, hbelow, hrest⟩ id (by simp)
      have hone : (a.mark rest.preorder).changeNode? id ({ · with erased := true }) =
          some ((a.mark rest.preorder).mark [id]) := by
        rw [changeNode?, if_pos (by simpa [Arena.mark] using hlt)]
        congr 2
        refine Array.ext_getElem? fun j => ?_
        rw [Array.getElem?_modify, Array.getElem?_mapIdx]
        by_cases hj : id = j
        · subst hj
          simp
        · simp [hj, Ne.symm hj]
      -- The nodes behind `id` are marked first, then `id` itself, then those below it.
      have hsteps : (Forest.cons id below rest).preorder.length + steps =
          rest.preorder.length + (below.preorder.length + steps + 1) := by
        rw [Forest.preorder_cons, List.length_cons, List.length_append]
        omega
      rw [hsteps, Forest.roots, List.reverse_cons, List.append_assoc, ihrest hrest,
        List.singleton_append, Arena.markAll?, children?_mark, hid]
      simp only [Option.bind_eq_bind, Option.bind_some, hone]
      rw [ihbelow ((hbelow.mark _).mark _), mark_mark, mark_mark]
      congr 1
      exact mark_congr fun j => by simp; tauto

end Arena

/-- In a list without repetition an element is found where it is. -/
theorem idxOf?_of_getElem? {l : List OpId} {id : OpId} {i : Nat} (hl : l.Nodup)
    (h : l[i]? = some id) : l.idxOf? id = some i := by
  obtain ⟨hi, hget⟩ := List.getElem?_eq_some_iff.1 h
  refine List.findIdx?_eq_some_iff_getElem.2 ⟨hi, by simp [hget], fun j hj heq => ?_⟩
  exact Nat.ne_of_lt hj (hl.getElem_inj_iff.1 ((beq_iff_eq.1 heq).trans hget.symm))

namespace Program

variable {p q : Program} {id x : OpId} {b parent : Option OpId} {i : Nat} {f : Forest OpId}

/-- The node of an operation with the links that the forest gives it. -/
def node (p : Program) (id : OpId) (s : Slot) : Arena.Node where
  name := s.op.name
  result := s.op.result
  operands := s.op.operands
  attributes := s.op.attributes
  region := if s.op.hasRegion then some (p.children (some id)) else none
  parent := p.parent? id
  erased := s.erased

/-- The arena of a program: all links are those of the forest. -/
def arena (p : Program) : Arena where
  nodes := p.slots.mapIdx p.node
  body := p.children none
  attributes := p.attributes

/-- Whether a place is the top, or an operation that was created and owns a region. -/
def Owns (p : Program) (parent : Option OpId) : Prop :=
  ∀ a, parent = some a → a < p.slots.size ∧ (p.op a).hasRegion = true

/-- A tree in which every operation that was created has a place, and names as its parent one that
owns a region. -/
structure Complete (p : Program) : Prop where
  tree : p.Tree
  placed : ∀ id < p.slots.size, id ∈ p.whole.preorder
  owned : ∀ id < p.slots.size, p.Owns (p.parent? id)

/-- The node of an operation in a program holds this operation. -/
@[simp] theorem op_node (p : Program) (id : OpId) (s : Slot) : (p.node id s).op = s.op := by
  rcases s with ⟨⟨name, result, operands, attributes, hasRegion⟩, erased⟩
  cases hasRegion <;> rfl

/-- The arena of a program has as many nodes as operations were created. -/
@[simp] theorem size_arena (p : Program) : p.arena.nodes.size = p.slots.size := by
  simp [arena]

/-- The node of an operation has the links that the forest gives it. -/
theorem getElem?_arena (p : Program) (id : OpId) :
    p.arena.nodes[id]? = p.slots[id]?.map (p.node id) := by
  simp [arena]

/-- An arena is that of a program when its nodes and its lists are. -/
theorem eq_arena {a : Arena} (hnodes : ∀ id, a.nodes[id]? = q.slots[id]?.map (q.node id))
    (hbody : a.body = q.children none) (hattributes : a.attributes = q.attributes) :
    a = q.arena := by
  have hsame : a.nodes = q.arena.nodes := Array.ext_getElem? fun id => by
    rw [hnodes, getElem?_arena]
  rcases a with ⟨nodes, body, attributes⟩
  dsimp only at hsame hbody hattributes
  rw [hsame, hbody, hattributes]
  rfl

/-- A node depends on the parent and on the children of its operation. -/
theorem node_congr (hparent : q.parent? id = p.parent? id)
    (hchildren : q.children (some id) = p.children (some id)) : q.node id = p.node id :=
  funext fun s => by rw [node, node, hparent, hchildren]

/-- An operation that receives a block has a node with a list, and the same parent as before. -/
theorem node_region (hparent : q.parent? id = p.parent? id) (s : Slot) :
    q.node id { s with op := { s.op with hasRegion := true } } =
      { p.node id s with region := some (q.children (some id)) } := by
  rw [node, node, hparent]
  rfl

/-- The node of an operation with a region has its children for a list, whatever they were before.
-/
theorem node_of_region (hparent : q.parent? id = p.parent? id) {s : Slot}
    (hregion : s.op.hasRegion = true) :
    q.node id s = { p.node id s with region := some (q.children (some id)) } := by
  rw [node, node, hparent, if_pos hregion]

/-- An operation that was created has an entry, which holds it and says whether it is erased. -/
theorem exists_slot (h : id < p.slots.size) :
    ∃ s, p.slots[id]? = some s ∧ p.op id = s.op ∧ p.isLive id = !s.erased := by
  refine ⟨_, Array.getElem?_eq_getElem h, ?_, ?_⟩
  · rw [Program.op, Array.getElem?_eq_getElem h]
    rfl
  · rw [isLive, Array.getElem?_eq_getElem h]
    rfl

namespace Complete

/-- An operation that was created is a place. -/
theorem isPlace (hp : p.Complete) (h : ∀ a, parent = some a → a < p.slots.size) :
    p.IsPlace parent :=
  fun a ha => hp.placed a (h a ha)

/-- What has a child is a place. -/
theorem isPlace_of_mem (h : id ∈ p.children parent) : p.IsPlace parent := by
  rintro a rfl
  refine Classical.byContradiction fun hnot => ?_
  rw [children_of_notMem hnot] at h
  cases h

/-- The parent of an operation is a place. -/
theorem isPlace_parent? (hp : p.Complete) (hid : id < p.slots.size) : p.IsPlace (p.parent? id) :=
  hp.isPlace fun a ha => (hp.owned id hid a ha).1

/-- Nothing is below an operation without a region. -/
theorem children_eq_nil (hp : p.Complete) (h : (p.op id).hasRegion = false) :
    p.children (some id) = [] := by
  refine List.eq_nil_iff_forall_not_mem.2 fun c hc => ?_
  have hlt : c < p.slots.size := hp.tree.sound.lt_size_of_walkIn (mem_walkIn_of_mem_children hc)
  have := (hp.owned c hlt id (hp.tree.parent?_eq hc)).2
  rw [h] at this
  cases this

/-! ### What is read -/

/-- An operation is live in the arena when it is in the program. -/
theorem isLive?_arena (hid : id < p.slots.size) : p.arena.isLive? id = some (p.isLive id) := by
  obtain ⟨s, hs, -, hlive⟩ := exists_slot hid
  rw [Arena.isLive?, getElem?_arena, hs, hlive]
  rfl

/-- The node of an operation lists its children. -/
theorem block_node (hp : p.Complete) {s : Slot} (hs : p.slots[id]? = some s) :
    (p.node id s).block = p.children (some id) := by
  have hop : p.op id = s.op := by
    rw [Program.op, hs]
    rfl
  rw [Arena.Node.block, node]
  split
  · rfl
  · rename_i hregion
    rw [hp.children_eq_nil (by rw [hop]; simpa using hregion)]
    rfl

/-- The arena lists below a place what the program has there. -/
theorem children?_arena (hp : p.Complete) (h : p.IsPlace parent) :
    p.arena.children? parent = some (p.children parent) := by
  cases parent with
  | none => rfl
  | some id =>
      obtain ⟨s, hs, -, -⟩ := exists_slot (hp.tree.lt id (h id rfl))
      rw [Arena.children?, getElem?_arena, hs, Option.map_some, Option.map_some, hp.block_node hs]

/-- The places are all that the arena has a list for. -/
theorem children?_arena_iff (hp : p.Complete) {block : List OpId} :
    p.arena.children? parent = some block ↔ p.IsPlace parent ∧ p.children parent = block := by
  constructor
  · intro h
    have hplace : p.IsPlace parent := hp.isPlace fun a ha => by
      subst ha
      obtain ⟨n, hn, -⟩ := Option.map_eq_some_iff.1 h
      rw [← size_arena]
      exact (Array.getElem?_eq_some_iff.1 hn).1
    rw [hp.children?_arena hplace] at h
    exact ⟨hplace, Option.some.inj h⟩
  · rintro ⟨hplace, rfl⟩
    exact hp.children?_arena hplace

/-- An operation is where the node that it was put below lists it. -/
theorem position?_arena (hp : p.Complete) (hid : id < p.slots.size) :
    p.arena.position? id = some (p.locate? id) := by
  obtain ⟨s, hs, -, -⟩ := exists_slot hid
  have hblock := hp.children?_arena (hp.isPlace_parent? hid)
  rw [Arena.position?, getElem?_arena, hs]
  simp only [Option.map_some, Option.bind_eq_bind, Option.bind_some, node, hblock, Option.pure_def]
  rcases hplace : p.locate? id with _ | ⟨parent, i⟩
  · have hnot : id ∉ p.children (p.parent? id) := fun hmem => by
      obtain ⟨i, hi⟩ := List.getElem?_of_mem hmem
      rw [hp.tree.locate?_eq_some_iff.2 hi] at hplace
      cases hplace
    rw [List.idxOf?_eq_none_iff.2 hnot]
    rfl
  · have hparent : p.parent? id = parent := by rw [parent?, hplace]
    have hi := hp.tree.locate?_eq_some_iff.1 hplace
    rw [hparent, idxOf?_of_getElem? (hp.tree.nodup_children parent) hi]
    rfl

/-- The arena lists the forests that are part of the program. -/
theorem follows_of_distinct (hp : p.Complete) (hf : f.Distinct)
    (h : ∀ id g, f.below? id = some g → p.whole.below? id = some g) : p.arena.Follows f := by
  induction f with
  | nil => trivial
  | cons id c r ihc ihr =>
      obtain ⟨hidc, hidr, hc, hr, hdisj⟩ := Forest.distinct_cons.1 hf
      have hid := h id c (by rw [Forest.below?, if_pos rfl])
      have hlist : p.children (some id) = c.roots := by
        rw [children_some, hid]
        rfl
      refine ⟨?_, ihc hc fun j g hj => h j g ?_, ihr hr fun j g hj => h j g ?_⟩
      · rw [hp.children?_arena fun a ha => ?_, hlist]
        cases ha
        exact Forest.mem_preorder_of_below? hid
      · have hmem := Forest.mem_preorder_of_below? hj
        rw [Forest.below?, if_neg (by rintro rfl; exact hidc hmem), hj, Option.some_or]
      · have hmem := Forest.mem_preorder_of_below? hj
        rw [Forest.below?, if_neg (by rintro rfl; exact hidr hmem),
          Forest.below?_eq_none_iff.2 fun hjc => hdisj j hjc hmem, Option.none_or, hj]

/-- The arena lists the body from the top on. -/
theorem follows_body (hp : p.Complete) : p.arena.Follows p.body :=
  hp.follows_of_distinct hp.tree.distinct_body fun id g hg => by
    rw [whole, Forest.below?_append, hg, Option.some_or]

/-- An operation does not occur twice in its tree. -/
theorem distinct_tree (hp : p.Complete) (hid : id < p.slots.size) :
    (Forest.single id (p.below id)).Distinct := by
  obtain ⟨g, hg⟩ := Forest.mem_preorder_iff.1 (hp.placed id hid)
  rw [below_of_whole hg]
  obtain ⟨hdistinct, hnot, -⟩ := hp.tree.distinct.below hg
  exact Forest.distinct_cons.2 ⟨hnot, by simp, hdistinct, Forest.distinct_nil, by simp⟩

/-- The arena lists the tree below an operation. -/
theorem follows_tree (hp : p.Complete) (hid : id < p.slots.size) :
    p.arena.Follows (.single id (p.below id)) := by
  obtain ⟨g, hg⟩ := Forest.mem_preorder_iff.1 (hp.placed id hid)
  refine hp.follows_of_distinct (hp.distinct_tree hid) fun j h hj => ?_
  rw [below_of_whole hg, Forest.single, Forest.below?] at hj
  split at hj
  · rename_i heq
    rw [← heq, hg, hj]
  · rw [Forest.below?, Option.or_none] at hj
    exact Forest.below?_trans hp.tree.distinct hg hj

/-- The walk of the arena ends, and is the pre-order of the body. -/
theorem walk?_arena (hp : p.Complete) : p.arena.walk? = some p.walk :=
  hp.follows_body.walk hp.tree.distinct_body []

/-- The walk below a node ends, and is the pre-order below the operation. -/
theorem walkIn?_arena (hp : p.Complete) (hid : id < p.slots.size) :
    p.arena.walkIn? id = some (p.walkIn id) := by
  have hplace : p.IsPlace (some id) := fun a ha => by
    cases ha
    exact hp.placed id hid
  have hblock := hp.children?_arena hplace
  rw [Arena.walkIn?, hblock]
  exact (hp.follows_tree hid).2.1.walk (Forest.distinct_cons.1 (hp.distinct_tree hid)).2.2.1 []

/-! ### What edits make -/

/-- A change of an operation that keeps its region leaves every operation its place. -/
theorem modify (hp : p.Complete) (id : OpId) {f : Operation → Operation}
    (hf : ∀ op, (f op).hasRegion = op.hasRegion) : (p.modify id f).Complete where
  tree := hp.tree.modify id f
  placed j hj := hp.placed j (by rwa [size_modify] at hj)
  owned j hj a ha := by
    obtain ⟨hlt, hregion⟩ := hp.owned j (by rwa [size_modify] at hj) a ha
    refine ⟨by rwa [size_modify], ?_⟩
    by_cases haid : a = id
    · subst haid
      rw [op_modify_self hlt, hf, hregion]
    · rw [op_modify_of_ne haid, hregion]

/-- A change of an operation leaves all links alone. -/
theorem change?_arena (hid : id < p.slots.size) {f : Operation → Operation}
    (hf : ∀ op, (f op).hasRegion = op.hasRegion) :
    p.arena.change? id f = some (p.modify id f).arena := by
  rw [Arena.change?, Arena.changeNode?, if_pos (by rwa [size_arena])]
  congr 1
  refine eq_arena (fun j => ?_) rfl rfl
  rw [Array.getElem?_modify, getElem?_arena, Program.modify, Array.getElem?_modify]
  split
  · rename_i heq
    subst heq
    rw [Option.map_map, Option.map_map]
    congr 1
    funext s
    simp only [Function.comp_apply, op_node]
    rw [Arena.Node.withOp, node, node, hf]
    rfl
  · rfl

/-- Marking nodes of the arena is marking operations as erased. -/
theorem mark_arena (p : Program) (ids : List OpId) :
    p.arena.mark ids = (p.markErased ids).arena := by
  refine eq_arena (fun j => ?_) rfl rfl
  rw [Arena.mark, Array.getElem?_mapIdx, getElem?_arena, slot_markErased, Option.map_map]
  split
  · rename_i hj
    rw [Option.map_map]
    congr 1
    funext s
    simp only [Function.comp_apply, hj, decide_true, Bool.or_true]
    rfl
  · rename_i hj
    congr 1
    funext s
    simp only [Function.comp_apply, hj, decide_false, Bool.or_false]
    rfl

/-! #### Creation -/

/-- The entries after a creation: the new one is the last, and the place owns a region. -/
theorem getElem?_insertAt (p : Program) (parent : Option OpId) (i : Nat) (op : Operation)
    (j : OpId) : (p.insertAt parent i op).2.slots[j]? =
      if parent = some j then
        (p.slots.push { op })[j]?.map fun s => { s with op := { s.op with hasRegion := true } }
      else (p.slots.push { op })[j]? := by
  cases parent with
  | none => rfl
  | some a =>
      rw [insertAt, slots_updateBlock_some, Program.modify, Array.getElem?_modify]
      simp only [Option.some.injEq]

/-- An operation that owns a region keeps it. -/
theorem hasRegion_insertAt {a : OpId} (ha : a < p.slots.size)
    (h : (p.op a).hasRegion = true ∨ parent = some a) (i : Nat) (op : Operation) :
    ((p.insertAt parent i op).2.op a).hasRegion = true := by
  obtain ⟨s, hs, hop, -⟩ := exists_slot ha
  have hpush : (p.slots.push { op })[a]? = some s := by
    rw [Array.getElem?_push, if_neg (Nat.ne_of_lt ha), hs]
  rw [Program.op, getElem?_insertAt, hpush]
  rw [hop] at h
  split
  · rfl
  · rename_i hne
    exact h.resolve_right hne

/-- The creation of an operation at a place leaves every operation its place. -/
theorem insertAt (hp : p.Complete) (h : p.IsPlace parent) (hi : i ≤ (p.children parent).length)
    (op : Operation) : (p.insertAt parent i op).2.Complete where
  tree := hp.tree.insertAt parent i op
  placed j hj := by
    rw [size_insertAt] at hj
    rw [hp.tree.mem_whole_insertAt h]
    by_cases hnew : j = p.slots.size
    · exact .inl hnew
    · exact .inr (hp.placed j (by omega))
  owned j hj a ha := by
    rw [size_insertAt] at hj ⊢
    rw [hp.tree.parent?_insertAt_of_isPlace h hi] at ha
    split at ha
    · have hlt := hp.tree.lt a (h a ha)
      exact ⟨Nat.lt_succ_of_lt hlt, hasRegion_insertAt hlt (.inr ha) i op⟩
    · rename_i hne
      obtain ⟨hlt, hregion⟩ := hp.owned j (Nat.lt_of_le_of_ne (Nat.le_of_lt_succ hj) hne) a ha
      exact ⟨Nat.lt_succ_of_lt hlt, hasRegion_insertAt hlt (.inl hregion) i op⟩

/-- A new operation has a node that names the place as its parent and lists nothing. -/
theorem node_insertAt_new (hp : p.Complete) (h : p.IsPlace parent)
    (hi : i ≤ (p.children parent).length) {n : Arena.Node} (hn : n.block = []) :
    (p.insertAt parent i n.op).2.node p.slots.size { op := n.op } =
      { n with parent, erased := false } := by
  have hregion : n.region = if n.op.hasRegion then some [] else none := by
    rcases hr : n.region with _ | l
    · simp [Arena.Node.op, hr]
    · rw [Arena.Node.block, hr, Option.getD_some] at hn
      simp [Arena.Node.op, hr, hn]
  have hnone : (p.insertAt parent i n.op).2.children (some p.slots.size) = [] := by
    rw [hp.tree.children_insertAt_of_isPlace h hi, if_neg, children_of_notMem hp.tree.notMem_new]
    rintro rfl
    exact hp.tree.notMem_new (h _ rfl)
  rw [node, hp.tree.parent?_insertAt_of_isPlace h hi, if_pos rfl, hnone, ← hregion]
  rfl

/-- A new operation leaves alone the nodes of all others but the place. -/
theorem node_insertAt_of_ne (hp : p.Complete) (h : p.IsPlace parent)
    (hi : i ≤ (p.children parent).length) (op : Operation) (hid : id ≠ p.slots.size)
    (hne : parent ≠ some id) : (p.insertAt parent i op).2.node id = p.node id :=
  node_congr (by rw [hp.tree.parent?_insertAt_of_isPlace h hi, if_neg hid])
    (by rw [hp.tree.children_insertAt_of_isPlace h hi, if_neg (Ne.symm hne)])

/-- A new node at a place: it names the place as its parent, and the place lists it. -/
theorem insertAt?_arena (hp : p.Complete) (h : p.IsPlace parent)
    (hi : i ≤ (p.children parent).length) {n : Arena.Node} (hn : n.block = []) :
    p.arena.insertAt? parent i n = some (p.slots.size, (p.insertAt parent i n.op).2.arena) := by
  have hchildren := hp.tree.children_insertAt_of_isPlace h hi n.op
  have hparent := hp.tree.parent?_insertAt_of_isPlace h hi n.op
  cases parent with
  | none =>
      have hbody : p.arena.body = p.children none := rfl
      rw [Arena.insertAt?]
      simp only [Arena.children?, hbody, guard, hi, Arena.changeBlock?, Option.bind_eq_bind,
        Option.bind_some, if_true, Option.pure_def, size_arena]
      congr 2
      refine eq_arena (fun j => ?_) (hchildren none).symm rfl
      rw [getElem?_insertAt, if_neg (nofun : none ≠ some j), Array.getElem?_push,
        Array.getElem?_push, size_arena]
      split
      · rename_i hj
        rw [hj, Option.map_some, hp.node_insertAt_new h hi hn]
      · rename_i hj
        rw [getElem?_arena, hp.node_insertAt_of_ne h hi n.op hj (by simp)]
  | some a =>
      have hlt : a < p.slots.size := hp.tree.lt a (h a rfl)
      have hblock : (p.arena.nodes.push { n with parent := some a, erased := false })[a]?.map
          Arena.Node.block = some (p.children (some a)) := by
        rw [Array.getElem?_push, if_neg (by rw [size_arena]; exact Nat.ne_of_lt hlt)]
        exact hp.children?_arena h
      rw [Arena.insertAt?]
      simp only [Arena.children?, hblock, guard, hi, Arena.changeBlock?, Arena.changeNode?,
        Option.bind_eq_bind, Option.bind_some, if_true, Option.pure_def, size_arena,
        Array.size_push, Nat.lt_succ_of_lt hlt]
      congr 2
      refine eq_arena (fun j => ?_) (hchildren none).symm rfl
      rw [getElem?_insertAt, Array.getElem?_modify, Array.getElem?_push, Array.getElem?_push,
        size_arena]
      by_cases haj : a = j
      · subst haj
        obtain ⟨s, hs, -, -⟩ := exists_slot hlt
        have hsame : (p.insertAt (some a) i n.op).2.parent? a = p.parent? a := by
          rw [hparent, if_neg (Nat.ne_of_lt hlt)]
        simp only [if_true, Nat.ne_of_lt hlt, if_false, getElem?_arena, hs, Option.map_some,
          hp.block_node hs, node_region hsame, hchildren]
      · rw [if_neg haj, if_neg fun heq => haj (Option.some.inj heq)]
        split
        · rename_i hj
          rw [hj, Option.map_some, hp.node_insertAt_new h hi hn]
        · rename_i hj
          rw [getElem?_arena, hp.node_insertAt_of_ne h hi n.op hj fun heq =>
            haj (Option.some.inj heq)]

/-! #### Erasure -/

/-- An operation that is cut out is listed no longer, and all lists keep the others. -/
theorem children_detach (hp : p.Tree) (hx : x < p.slots.size) (b : Option OpId) :
    (p.detach x).children b = (p.children b).filter (· ≠ x) :=
  hp.children_erase hx b

/-- An operation that is cut out keeps the parent it had. -/
theorem parent?_detach (hp : p.Tree) (hx : x < p.slots.size) (id : OpId) :
    (p.detach x).parent? id = p.parent? id := by
  by_cases hid : id = x
  · subst hid
    exact hp.parent?_erase_self hx
  · exact hp.parent?_erase hx hid

/-- An operation that is cut out keeps what is below it. -/
theorem below_detach (hp : p.Tree) (hx : x < p.slots.size) : (p.detach x).below x = p.below x := by
  have hwhole := hp.below?_whole_erase hx x
  rw [Forest.below?, if_pos rfl] at hwhole
  exact below_of_whole hwhole

/-- Only the parent of an operation lists it. -/
theorem filter_children (hp : p.Tree) (hb : b ≠ p.parent? x) :
    (p.children b).filter (· ≠ x) = p.children b :=
  List.filter_eq_self.2 fun _ hy => decide_eq_true fun heq => hb (hp.parent?_eq (heq ▸ hy)).symm

/-- Cutting a tree out leaves every operation a place, in the body or aside. -/
theorem detach (hp : p.Complete) (hx : x < p.slots.size) : (p.detach x).Complete where
  tree := by
    have htree := hp.tree.erase hx
    rw [Tree, size_erase] at htree
    exact htree
  placed id hid := by
    have hperm := hp.tree.preorder_whole_erase x
    exact hperm.mem_iff.2 ((hp.tree.mem_cut (hp.placed x hx)).2 (hp.placed id hid))
  owned id hid a ha := by
    rw [parent?_detach hp.tree hx] at ha
    exact hp.owned id hid a ha

/-- Marking operations as erased leaves every operation its place. -/
theorem markErased (hp : p.Complete) (ids : List OpId) : (p.markErased ids).Complete where
  tree := by
    rw [Tree, size_markErased]
    exact hp.tree
  placed id hid := hp.placed id (by rwa [size_markErased] at hid)
  owned id hid a ha := by
    rw [size_markErased] at hid
    obtain ⟨hlt, hregion⟩ := hp.owned id hid a ha
    exact ⟨by rwa [size_markErased], by rw [op_markErased, hregion]⟩

/-- An erasure leaves every operation a place, in the body or aside. -/
theorem erase (hp : p.Complete) (hx : x < p.slots.size) : (p.erase x).Complete :=
  (hp.detach hx).markErased _

/-- An operation that is taken out of its list keeps the parent that it was cut from. -/
theorem unlink?_arena (hp : p.Complete) (hx : x < p.slots.size) :
    p.arena.unlink? x = some (p.detach x).arena := by
  obtain ⟨s, hs, -, -⟩ := exists_slot hx
  have hnode : ∀ j, p.parent? x ≠ some j → (p.detach x).node j = p.node j := fun j hj =>
    node_congr (parent?_detach hp.tree hx j) (by
      rw [children_detach hp.tree hx, filter_children hp.tree (Ne.symm hj)])
  have hbody : p.parent? x ≠ none → (p.detach x).children none = p.children none := fun h => by
    rw [children_detach hp.tree hx, filter_children hp.tree (Ne.symm h)]
  have howned := hp.owned x hx
  rw [Arena.unlink?, getElem?_arena, hs]
  simp only [Option.map_some, Option.bind_eq_bind, Option.bind_some, node]
  cases hparent : p.parent? x with
  | none =>
      rw [Arena.changeBlock?]
      congr 1
      refine eq_arena (fun j => ?_) (children_detach hp.tree hx none).symm rfl
      rw [getElem?_arena, hnode j (by simp [hparent])]
      rfl
  | some a =>
      obtain ⟨hlt, hregion⟩ := howned a hparent
      obtain ⟨t, ht, hop, -⟩ := exists_slot hlt
      rw [hop] at hregion
      rw [Arena.changeBlock?, Arena.changeNode?, if_pos (by rwa [size_arena])]
      congr 1
      refine eq_arena (fun j => ?_) (hbody (by simp [hparent])).symm rfl
      have hslots : (p.detach x).slots = p.slots := rfl
      rw [Array.getElem?_modify, getElem?_arena, hslots]
      split
      · rename_i heq
        subst heq
        rw [ht, Option.map_some, Option.map_some, Option.map_some, hp.block_node ht,
          ← children_detach hp.tree hx, node_of_region (parent?_detach hp.tree hx a) hregion]
      · rename_i hne
        rw [hnode j (by rw [hparent]; exact fun heq => hne (Option.some.inj heq))]

/-- The loop of an erasure marks an operation and all below it. -/
theorem erase?_arena (hp : p.Complete) (hx : x < p.slots.size) :
    p.arena.erase? x = some (p.erase x).arena := by
  have hq := hp.detach hx
  have hfollows := hq.follows_tree hx
  have hwalk : (p.detach x).arena.walkInto? (p.detach x).arena.nodes.size [] x =
      some (x :: p.walkIn x) := by
    have h := hfollows.walk (hq.distinct_tree hx) []
    rw [below_detach hp.tree hx] at h
    simpa [Forest.single, Forest.roots, Program.walkIn] using h
  have hmark := hfollows.markAll? 0 []
  rw [below_detach hp.tree hx, mark_arena, Arena.markAll?] at hmark
  calc p.arena.erase? x
      = (p.detach x).arena.markAll? (x :: p.walkIn x).length [x] := by
        rw [Arena.erase?, hp.unlink?_arena hx, Option.bind_eq_bind, Option.bind_some, hwalk]
        rfl
    _ = some (p.erase x).arena := by
        rw [Program.erase]
        simpa [Forest.single, Forest.roots, Program.walkIn] using hmark

/-! #### Moves -/

/-- The entries after a move: only the new parent changes, which owns a region. -/
theorem getElem?_moveTo (p : Program) (x : OpId) (parent : Option OpId) (j : OpId) :
    (p.moveTo x parent).slots[j]? =
      if parent = some j then
        p.slots[j]?.map fun s => { s with op := { s.op with hasRegion := true } }
      else p.slots[j]? := by
  cases parent with
  | none => rfl
  | some a =>
      rw [Program.moveTo, slots_updateBlock_some, Program.modify, Array.getElem?_modify]
      simp only [Option.some.injEq]
      rfl

/-- A move creates no operation. -/
theorem size_moveTo_of (p : Program) (x : OpId) (parent : Option OpId) :
    (p.moveTo x parent).slots.size = p.slots.size := by
  cases parent with
  | none => rfl
  | some a => exact size_moveTo p x a

/-- A move leaves every operation a place. -/
theorem moveTo (hp : p.Complete) (hx : x < p.slots.size) (h : p.Admits x parent) :
    (p.moveTo x parent).Complete where
  tree := hp.tree.moveTo hx parent
  placed id hid := by
    rw [size_moveTo_of] at hid
    exact (hp.tree.mem_whole_moveTo (hp.placed x hx) h).2 (hp.placed id hid)
  owned id hid a ha := by
    rw [size_moveTo_of] at hid ⊢
    rw [hp.tree.parent?_moveTo hx h] at ha
    have hold : a < p.slots.size ∧ ((p.op a).hasRegion = true ∨ parent = some a) := by
      split at ha
      · exact ⟨hp.tree.lt a (h a ha).1, .inr ha⟩
      · exact (hp.owned id hid a ha).imp_right .inl
    obtain ⟨s, hs, hop, -⟩ := exists_slot hold.1
    rw [hop] at hold
    refine ⟨hold.1, ?_⟩
    rw [Program.op, getElem?_moveTo, hs]
    split
    · rfl
    · rename_i hne
      exact hold.2.resolve_right hne

/-- A tree that was cut out is moved to the end of a list, and all other lists stay. -/
theorem children_moveTo_detach (hp : p.Tree) (hx : x < p.slots.size) (h : p.Admits x parent)
    (b : Option OpId) : (p.moveTo x parent).children b =
      if b = parent then (p.detach x).children b ++ [x] else (p.detach x).children b := by
  rw [children_detach hp hx, hp.children_moveTo hx h]

/-- A move leaves the parents of all other operations. -/
theorem parent?_moveTo_detach (hp : p.Tree) (hx : x < p.slots.size) (h : p.Admits x parent)
    (hid : id ≠ x) : (p.moveTo x parent).parent? id = (p.detach x).parent? id := by
  rw [hp.parent?_moveTo hx h, if_neg hid, parent?_detach hp hx]

/-- A move leaves alone the nodes of all other operations but the place. -/
theorem node_moveTo_of_ne (hp : p.Tree) (hx : x < p.slots.size) (h : p.Admits x parent)
    (hid : id ≠ x) (hne : parent ≠ some id) : (p.moveTo x parent).node id = (p.detach x).node id :=
  node_congr (parent?_moveTo_detach hp hx h hid)
    (by rw [children_moveTo_detach hp hx h, if_neg (Ne.symm hne)])

/-- The operation that is moved has a node that names the place as its parent. -/
theorem node_moveTo_self (hp : p.Tree) (hx : x < p.slots.size) (h : p.Admits x parent) :
    (p.moveTo x parent).node x = fun s => { (p.detach x).node x s with parent } := by
  have hne : some x ≠ parent := fun heq => (h x heq.symm).2.1 rfl
  funext s
  rw [node, node, children_moveTo_detach hp hx h, if_neg hne, hp.parent?_moveTo hx h, if_pos rfl]

/-- A tree that is moved is taken out of one list and put into another, and names the place as its
parent. -/
theorem moveTo?_arena (hp : p.Complete) (hx : x < p.slots.size) (h : p.Admits x parent) :
    p.arena.moveTo? x parent = some (p.moveTo x parent).arena := by
  have hcut := hp.detach hx
  have hchildren := children_moveTo_detach hp.tree hx h
  have hslots : (p.detach x).slots = p.slots := rfl
  rw [Arena.moveTo?, hp.unlink?_arena hx]
  simp only [Option.bind_eq_bind, Option.bind_some, Arena.changeNode?, size_arena, hslots, hx,
    if_true]
  cases parent with
  | none =>
      rw [Arena.changeBlock?]
      congr 1
      refine eq_arena (fun j => ?_) (hchildren none).symm rfl
      rw [Array.getElem?_modify, getElem?_arena, hslots, getElem?_moveTo,
        if_neg (nofun : none ≠ some j)]
      split
      · rename_i heq
        subst heq
        rw [Option.map_map, node_moveTo_self hp.tree hx h]
        rfl
      · rename_i hne
        rw [node_moveTo_of_ne hp.tree hx h (Ne.symm hne) (by simp)]
  | some a =>
      obtain ⟨hplace, hax, -⟩ := h a rfl
      have hlt := hp.tree.lt a hplace
      rw [Arena.changeBlock?, Arena.changeNode?, if_pos (by simpa [hslots] using hlt)]
      congr 1
      refine eq_arena (fun j => ?_) (hchildren none).symm rfl
      rw [Array.getElem?_modify, Array.getElem?_modify, getElem?_arena, hslots, getElem?_moveTo]
      by_cases haj : a = j
      · subst haj
        obtain ⟨s, hs, -, -⟩ := exists_slot hlt
        rw [if_pos rfl, if_neg (Ne.symm hax), if_pos rfl, hs]
        have hparent := parent?_moveTo_detach hp.tree hx h hax
        simp only [Option.map_some, hcut.block_node hs, node_region hparent, hchildren, if_true]
      · rw [if_neg haj, if_neg fun heq => haj (Option.some.inj heq)]
        split
        · rename_i heq
          subst heq
          rw [Option.map_map, node_moveTo_self hp.tree hx h]
          rfl
        · rename_i hne
          rw [node_moveTo_of_ne hp.tree hx h (Ne.symm hne) fun heq => haj (Option.some.inj heq)]

/-! #### Places by an anchor -/

/-- The place of an operation is one that a new operation can be put before or after. -/
theorem isPlace_of_locate? (hp : p.Complete) (hid : id < p.slots.size)
    (h : p.locate? id = some (parent, i)) : p.IsPlace parent ∧ i + 1 ≤
    (p.children parent).length := by
  have hparent : p.parent? id = parent := by rw [parent?, h]
  exact ⟨hparent ▸ hp.isPlace_parent? hid,
    (List.getElem?_eq_some_iff.1 (hp.tree.locate?_eq_some_iff.1 h)).1⟩

/-- The top is a place. -/
theorem isPlace_none (p : Program) : p.IsPlace none :=
  fun _ h => nomatch h

/-- The creation of an operation behind its siblings leaves every operation its place. -/
theorem append (hp : p.Complete) (h : p.IsPlace parent) (op : Operation) :
    (p.append parent op).2.Complete :=
  hp.insertAt h (Nat.le_refl _) op

/-- A new node behind its siblings is one at the last place. -/
theorem append?_arena (hp : p.Complete) (h : p.IsPlace parent) {n : Arena.Node}
    (hn : n.block = []) :
    p.arena.append? parent n = some (p.slots.size, (p.append parent n.op).2.arena) := by
  rw [Arena.append?, hp.children?_arena h]
  exact hp.insertAt?_arena h (Nat.le_refl _) hn

/-- The creation of an operation before another leaves every operation its place. -/
theorem insertBefore (hp : p.Complete) (hid : id < p.slots.size) (op : Operation) :
    (p.insertBefore id op).2.Complete := by
  rw [Program.insertBefore]
  split
  · rename_i h
    obtain ⟨hplace, hi⟩ := hp.isPlace_of_locate? hid h
    exact hp.insertAt hplace (Nat.le_of_succ_le hi) op
  · exact hp.append (isPlace_none p) op

/-- A new node before another is put where the program puts its operation. -/
theorem insertBefore?_arena (hp : p.Complete) (hid : id < p.slots.size) {n : Arena.Node}
    (hn : n.block = []) : p.arena.insertBefore? id n =
      some (p.slots.size, (p.insertBefore id n.op).2.arena) := by
  rw [Arena.insertBefore?, hp.position?_arena hid, Program.insertBefore]
  cases h : p.locate? id with
  | none => exact hp.insertAt?_arena (isPlace_none p) (Nat.le_refl _) hn
  | some place =>
      obtain ⟨hplace, hi⟩ := hp.isPlace_of_locate? hid h
      exact hp.insertAt?_arena hplace (Nat.le_of_succ_le hi) hn

/-- The creation of an operation behind another leaves every operation its place. -/
theorem insertAfter (hp : p.Complete) (hid : id < p.slots.size) (op : Operation) :
    (p.insertAfter id op).2.Complete := by
  rw [Program.insertAfter]
  split
  · rename_i h
    obtain ⟨hplace, hi⟩ := hp.isPlace_of_locate? hid h
    exact hp.insertAt hplace hi op
  · exact hp.append (isPlace_none p) op

/-- A new node behind another is put where the program puts its operation. -/
theorem insertAfter?_arena (hp : p.Complete) (hid : id < p.slots.size) {n : Arena.Node}
    (hn : n.block = []) : p.arena.insertAfter? id n =
      some (p.slots.size, (p.insertAfter id n.op).2.arena) := by
  rw [Arena.insertAfter?, hp.position?_arena hid, Program.insertAfter]
  cases h : p.locate? id with
  | none => exact hp.insertAt?_arena (isPlace_none p) (Nat.le_refl _) hn
  | some place =>
      obtain ⟨hplace, hi⟩ := hp.isPlace_of_locate? hid h
      exact hp.insertAt?_arena hplace hi hn

end Complete

end Program

/-! ### Runs of edits -/

/-- The edit that inserts something else. -/
def Rearrangement.map {α β : Type} (f : α → β) : Rearrangement α → Rearrangement β
  | append parent new => append parent (f new)
  | insertAt parent i new => insertAt parent i (f new)
  | insertBefore anchor new => insertBefore anchor (f new)
  | insertAfter anchor new => insertAfter anchor (f new)
  | erase id => erase id
  | moveTo id parent => moveTo id parent

/-- The arena after an edit. -/
def Arena.run? (a : Arena) : Rearrangement Arena.Node → Option Arena
  | .append parent n => (a.append? parent n).map (·.2)
  | .insertAt parent i n => (a.insertAt? parent i n).map (·.2)
  | .insertBefore anchor n => (a.insertBefore? anchor n).map (·.2)
  | .insertAfter anchor n => (a.insertAfter? anchor n).map (·.2)
  | .erase id => a.erase? id
  | .moveTo id parent => a.moveTo? id parent

namespace Program

variable {p q r : Program} {id : OpId} {parent : Option OpId}

/-- An edit of a program that is the same edit of its arena. -/
inductive Mirrored (p : Program) : Program → Prop
  | rearrange (e : Rearrangement Operation)
      (same : p.arena.run? (e.map .ofOperation) = some (e.apply p).arena) : Mirrored p (e.apply p)
  | change (id : OpId) (f : Operation → Operation)
      (same : p.arena.change? id f = some (p.modify id f).arena) : Mirrored p (p.modify id f)

/-- Whether edits make a program of another, and of its arena the arena. -/
def Mirrors (p q : Program) : Prop :=
  Relation.ReflTransGen Mirrored p q

/-- A run of edits may follow another. -/
theorem Mirrors.trans (h : p.Mirrors q) (h' : q.Mirrors r) : p.Mirrors r :=
  Relation.ReflTransGen.trans h h'

/-- An edit that gives the same arena is one of those that mirror. -/
theorem mirrors_of_run? (e : Rearrangement Operation)
    (h : p.arena.run? (e.map .ofOperation) = some (e.apply p).arena) : p.Mirrors (e.apply p) :=
  .single (.rearrange e h)

namespace Complete

/-- The creation of an operation at a place is the same edit of the arena. -/
theorem mirrors_insertAt (hp : p.Complete) (h : p.IsPlace parent) {i : Nat}
    (hi : i ≤ (p.children parent).length) (op : Operation) :
    p.Mirrors (p.insertAt parent i op).2 := by
  refine mirrors_of_run? (.insertAt parent i op) ?_
  rw [Rearrangement.map, Arena.run?, hp.insertAt?_arena h hi (Arena.Node.block_ofOperation op),
    Arena.Node.op_ofOperation]
  rfl

/-- The creation of an operation behind its siblings is the same edit of the arena. -/
theorem mirrors_append (hp : p.Complete) (h : p.IsPlace parent) (op : Operation) :
    p.Mirrors (p.append parent op).2 := by
  refine mirrors_of_run? (.append parent op) ?_
  rw [Rearrangement.map, Arena.run?, hp.append?_arena h (Arena.Node.block_ofOperation op),
    Arena.Node.op_ofOperation]
  rfl

/-- The creation of an operation before another is the same edit of the arena. -/
theorem mirrors_insertBefore (hp : p.Complete) (hid : id < p.slots.size) (op : Operation) :
    p.Mirrors (p.insertBefore id op).2 := by
  refine mirrors_of_run? (.insertBefore id op) ?_
  rw [Rearrangement.map, Arena.run?, hp.insertBefore?_arena hid (Arena.Node.block_ofOperation op),
    Arena.Node.op_ofOperation]
  rfl

/-- An erasure is the same edit of the arena. -/
theorem mirrors_erase (hp : p.Complete) (hid : id < p.slots.size) : p.Mirrors (p.erase id) :=
  mirrors_of_run? (.erase id) (hp.erase?_arena hid)

/-- A move is the same edit of the arena. -/
theorem mirrors_moveTo (hp : p.Complete) (hid : id < p.slots.size) (h : p.Admits id parent) :
    p.Mirrors (p.moveTo id parent) :=
  mirrors_of_run? (.moveTo id parent) (hp.moveTo?_arena hid h)

/-- A change of an operation that was not created changes nothing. -/
theorem mirrors_modify (id : OpId) {f : Operation → Operation}
    (hf : ∀ op, (f op).hasRegion = op.hasRegion) : p.Mirrors (p.modify id f) := by
  by_cases hid : id < p.slots.size
  · exact .single (.change id f (change?_arena hid hf))
  · have hslots : p.slots.modify id (fun s => { s with op := f s.op }) = p.slots :=
      Array.ext_getElem? fun j => by
        rw [Array.getElem?_modify]
        split
        · rename_i hj
          rw [← hj, Array.getElem?_eq_none (Nat.le_of_not_lt hid)]
          rfl
        · rfl
    rw [Program.modify, hslots]
    exact .refl

end Complete

end Program

end TileFlow
