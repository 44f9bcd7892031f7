import TileFlow.Proofs.Program.Built
import TileFlow.Proofs.Source.Written
import TileFlow.Proofs.Stage.Orderly

/-!
# Stages on arenas

The parser appends one operation after the other, each before what is below it, and so builds the
arena of the program that it makes. Stages then edit this arena as they edit the program: in every
order, and also when they give up half-way. What they leave is the arena of a tree.

## Main definitions

* `Program.fill`: the operations of a forest, appended one after the other.
* `Arena.IsTree`: arenas whose links agree and whose values are unique.

## Main results

* `Program.mirrors_ofForest`: the program of a forest is made by appending its operations.
* `Stage.runEach_tree`: the arena that stages leave.
-/

namespace TileFlow

variable {p q : Program} {id : OpId} {b parent : Option OpId}

/-! ### Forests that are filled -/

namespace Forest

/-- The forest with trees put behind the children of a place. -/
def putAt (f : Forest OpId) (parent : Option OpId) (g : Forest OpId) : Forest OpId :=
  match parent with
  | none => f ++ g
  | some a => f.update a (· ++ g)

/-- Two updates at one label are one. -/
theorem update_update (f : Forest OpId) (a : OpId) (k l : Forest OpId → Forest OpId) :
    (f.update a k).update a l = f.update a (l ∘ k) := by
  induction f with
  | nil => rfl
  | cons b c r ihc ihr =>
      rw [update, update]
      split
      · rename_i h
        rw [update, if_pos h]
        rfl
      · rename_i h
        rw [update, if_neg h, ihc, ihr]

/-- Trees put behind the children of a place in two parts are put there together. -/
theorem putAt_putAt (f : Forest OpId) (parent : Option OpId) (g h : Forest OpId) :
    (f.putAt parent g).putAt parent h = f.putAt parent (g ++ h) := by
  cases parent with
  | none => exact append_assoc f g h
  | some a =>
      rw [putAt, putAt, update_update, putAt]
      congr 1
      funext k
      exact append_assoc k g h

/-- Appending nothing below a label changes nothing. -/
theorem update_id (f : Forest OpId) (a : OpId) : f.update a (· ++ nil) = f := by
  induction f with
  | nil => rfl
  | cons b c r ihc ihr =>
      rw [update, append_nil, ihc, ihr]
      split <;> rfl

/-- Putting no tree at a place changes nothing. -/
theorem putAt_nil (f : Forest OpId) (parent : Option OpId) : f.putAt parent nil = f := by
  cases parent with
  | none => exact append_nil f
  | some a => exact update_id f a

/-- An update below a new leaf at the end of a forest is one of this leaf. -/
theorem update_append_single {f : Forest OpId} {id : OpId} (h : id ∉ f.preorder)
    (k : Forest OpId → Forest OpId) : (f ++ single id nil).update id k = f ++
    single id (k nil) := by
  show (f.append (single id nil)).update id k = f.append (single id (k nil))
  induction f with
  | nil => rw [append, single, update, if_pos rfl]; rfl
  | cons b c r _ ih =>
      simp only [preorder_cons, List.mem_cons, List.mem_append, not_or] at h
      obtain ⟨hb, hc, hr⟩ := h
      rw [append, update, if_neg (Ne.symm hb), update_eq_self hc, ih hr, append]

/-- What is put below a new leaf is put there with it. -/
theorem update_putAt_single {f : Forest OpId} {id : OpId} (h : id ∉ f.preorder)
    (hparent : parent ≠ some id) (k : Forest OpId → Forest OpId) :
    (f.putAt parent (single id nil)).update id k = f.putAt parent (single id (k nil)) := by
  cases parent with
  | none => exact update_append_single h k
  | some a =>
      have ha : a ≠ id := fun heq => hparent (congrArg some heq)
      rw [putAt, putAt]
      induction f with
      | nil => rfl
      | cons b c r ihc ihr =>
          simp only [preorder_cons, List.mem_cons, List.mem_append, not_or] at h
          obtain ⟨hb, hc, hr⟩ := h
          rw [update, update]
          split
          · rw [update, if_neg (Ne.symm hb), update_append_single hc, update_eq_self hr]
          · rw [update, if_neg (Ne.symm hb), ihc hc, ihr hr]

/-- Two updates that agree on the forest below a label agree. -/
theorem update_congr {f g : Forest OpId} {a : OpId} {k l : Forest OpId → Forest OpId}
    (hf : f.Distinct) (hg : f.below? a = some g) (h : k g = l g) : f.update a k = f.update a l := by
  induction f with
  | nil => rfl
  | cons b c r ihc ihr =>
      obtain ⟨-, -, hc, hr, hdisj⟩ := distinct_cons.1 hf
      rw [below?] at hg
      rw [update, update]
      split at hg
      · rename_i hb
        cases hg
        rw [if_pos hb, if_pos hb, h]
      · rename_i hb
        rw [if_neg hb, if_neg hb]
        rcases Option.or_eq_some_iff.1 hg with hg | ⟨hnone, hg⟩
        · have hnot : a ∉ r.preorder := hdisj a (mem_preorder_of_below? hg)
          rw [ihc hc hg, update_eq_self hnot, update_eq_self hnot]
        · have hnot : a ∉ c.preorder := below?_eq_none_iff.1 hnone
          rw [ihr hr hg, update_eq_self hnot, update_eq_self hnot]

/-- A leaf put behind the last tree below a label is appended there. -/
theorem update_insertAt_length {f : Forest OpId} (hf : f.Distinct) (a x : OpId) :
    f.update a (·.insertAt ((f.below? a).getD nil).roots.length x nil) =
      f.update a (· ++ single x nil) := by
  by_cases ha : a ∈ f.preorder
  · obtain ⟨g, hg⟩ := mem_preorder_iff.1 ha
    rw [hg]
    exact update_congr hf hg (insertAt_length_roots g x nil)
  · rw [update_eq_self ha, update_eq_self ha]

end Forest

namespace Program

/-- Operations appended below a place one after the other, each before what is below it
(`parse_block`). -/
def fill (p : Program) (parent : Option OpId) : Forest Operation → Program
  | .nil => p
  | .cons op children rest =>
    ((p.append parent op).2.fill (some p.slots.size) children).fill parent rest

/-- The program with a numbered forest of operations behind the children of a place. -/
def filled (p : Program) (parent : Option OpId) (ops : Forest Operation) : Program :=
  { p with
    slots := p.slots ++ (ops.preorder.map fun op => ({ op } : Slot)).toArray
    body := p.body.putAt parent (ops.number p.slots.size) }

/-- Without operations nothing is filled. -/
theorem filled_nil (p : Program) (parent : Option OpId) : p.filled parent .nil = p := by
  rw [filled, Forest.number, Forest.putAt_nil]
  simp

/-- What is put below a new operation is put there with it. -/
theorem filled_below (hp : p.Tree) (h : p.Owns parent) (op : Operation) (ops : Forest Operation) :
    (p.filled parent (.single op .nil)).filled (some p.slots.size) ops =
      p.filled parent (.single op ops) := by
  have hnew : p.slots.size ∉ p.body.preorder := fun hmem =>
    hp.notMem_new (mem_whole_of_mem_walk hmem)
  have hparent : parent ≠ some p.slots.size := fun heq => Nat.lt_irrefl _ (h _ heq).1
  simp only [filled, Forest.single, Forest.number, Forest.putAt]
  congr 1
  · simp
  · have hsize : p.slots.size + 1 = (p.slots ++ ((Forest.cons op .nil .nil).preorder.map
        fun op => ({ op } : Slot)).toArray).size := by simp
    rw [← hsize]
    exact Forest.update_putAt_single hnew hparent _

/-- What is put behind a new tree is put there with it. -/
theorem filled_behind (p : Program) (parent : Option OpId) (op : Operation)
    (ops rest : Forest Operation) : (p.filled parent (.single op ops)).filled parent rest =
      p.filled parent (.cons op ops rest) := by
  simp only [filled, Forest.single, Forest.number, Forest.putAt_putAt]
  congr 1
  · simp
  · have hsize : p.slots.size + 1 + ops.size = (p.slots ++ ((Forest.cons op ops .nil).preorder.map
        fun op => ({ op } : Slot)).toArray).size := by simp; omega
    rw [← hsize]
    rfl

/-- An operation that owns a region keeps it when others are filled in. -/
theorem Owns.filled (h : p.Owns b) (parent : Option OpId) (ops : Forest Operation) :
    (p.filled parent ops).Owns b := fun a ha => by
  obtain ⟨hlt, hregion⟩ := h a ha
  have hop : (p.filled parent ops).op a = p.op a := by
    rw [op, Program.filled, Array.getElem?_append_left hlt, op]
  have hsize : p.slots.size ≤ (p.filled parent ops).slots.size := by simp [Program.filled]
  exact ⟨Nat.lt_of_lt_of_le hlt hsize, by rw [hop, hregion]⟩

/-- A new operation with a region owns it. -/
theorem owns_filled_single (p : Program) (parent : Option OpId) {op : Operation}
    (h : op.hasRegion = true) : (p.filled parent (.single op .nil)).Owns (some p.slots.size) := by
  rintro a ⟨⟩
  simp [filled, Forest.single, Program.op, h]

/-- An operation is appended as a leaf below a place that owns a region. -/
theorem append_eq_filled (hp : p.Tree) (hdetached : p.detached = []) (h : p.Owns parent)
    (op : Operation) : (p.append parent op).2 = p.filled parent (.single op .nil) := by
  have hslots : (p.append parent op).2.slots = p.slots.push { op } := by
    refine Array.ext_getElem? fun j => ?_
    rw [append, Complete.getElem?_insertAt]
    split
    · rename_i hj
      obtain ⟨hlt, hregion⟩ := h j hj
      obtain ⟨s, hs, hop, -⟩ := exists_slot hlt
      rw [hop] at hregion
      rw [Array.getElem?_push, if_neg (Nat.ne_of_lt hlt), hs, Option.map_some, ← hregion]
    · rfl
  have hbody : (p.append parent op).2.body = p.body.putAt parent (.single p.slots.size .nil) := by
    cases parent with
    | none => exact Forest.insertAt_length_roots p.body p.slots.size .nil
    | some a =>
        rw [append, body_insertAt_some, children, block, below, hdetached, List.findSome?_nil,
          Option.or_none]
        exact Forest.update_insertAt_length hp.distinct_body a p.slots.size
  have haside : (p.append parent op).2.detached = [] := by
    cases parent with
    | none => exact hdetached
    | some a => rw [append, detached_insertAt_some, hdetached]; rfl
  have hattributes : (p.append parent op).2.attributes = p.attributes := by
    cases parent <;> rfl
  calc (p.append parent op).2
      = ⟨(p.append parent op).2.slots, (p.append parent op).2.body,
          (p.append parent op).2.detached, (p.append parent op).2.attributes⟩ := rfl
    _ = p.filled parent (.single op .nil) := by
        rw [hslots, hbody, haside, hattributes, filled, hdetached]
        simp [Forest.single, Forest.number]

/-- Appending the operations of a forest one after the other gives the program with this forest, and
its arena. -/
theorem Complete.fill (hp : p.Complete) (hdetached : p.detached = []) (h : p.Owns parent)
    {ops : Forest Operation} (hops : ops.Regions) : p.fill parent ops = p.filled parent ops ∧
      (p.fill parent ops).Complete ∧ p.Mirrors (p.fill parent ops) := by
  induction ops generalizing p parent with
  | nil => exact ⟨(filled_nil p parent).symm, hp, .refl⟩
  | cons op children rest ihchildren ihrest =>
      obtain ⟨hregion, hchildren, hrest⟩ := hops
      have hplace : p.IsPlace parent := hp.isPlace fun a ha => (h a ha).1
      have happend := append_eq_filled hp.tree hdetached h op
      -- The operation, then what is below it, and then what is behind it.
      have hbelow : (p.append parent op).2.fill (some p.slots.size) children =
            p.filled parent (.single op children) ∧
          ((p.append parent op).2.fill (some p.slots.size) children).Complete ∧
          p.Mirrors ((p.append parent op).2.fill (some p.slots.size) children) := by
        have hcomplete := hp.append hplace op
        have hmirrors := hp.mirrors_append hplace op
        cases hop : op.hasRegion with
        | false =>
            obtain rfl := hregion hop
            exact ⟨happend, hcomplete, hmirrors⟩
        | true =>
            obtain ⟨heq, hcomplete', hmirrors'⟩ := ihchildren hcomplete
              (by rw [happend]; exact hdetached) (by
                rw [happend]; exact owns_filled_single p parent hop) hchildren
            refine ⟨?_, hcomplete', hmirrors.trans hmirrors'⟩
            rw [heq, happend, filled_below hp.tree h]
      obtain ⟨heq, hcomplete, hmirrors⟩ := hbelow
      rw [Program.fill]
      obtain ⟨heq', hcomplete', hmirrors'⟩ := ihrest hcomplete (by rw [heq]; exact hdetached)
        (by rw [heq]; exact h.filled parent _) hrest
      refine ⟨?_, hcomplete', hmirrors.trans hmirrors'⟩
      rw [heq', heq, filled_behind]

/-- The program of a forest is made by appending its operations one after the other. -/
theorem mirrors_ofForest (attributes : Dictionary) {ops : Forest Operation} (hops : ops.Regions) :
    (ofForest attributes ops).Complete ∧
      ({ attributes } : Program).Mirrors (ofForest attributes ops) := by
  have hempty : ({ attributes } : Program).Complete :=
    { tree := (wellFormed_ofForest attributes .nil).tree rfl
      placed := nofun
      owned := nofun }
  obtain ⟨heq, hcomplete, hmirrors⟩ := hempty.fill rfl
    (nofun : ({ attributes } : Program).Owns none) hops
  have hall : ({ attributes } : Program).filled none ops = ofForest attributes ops := by
    simp only [filled, Forest.putAt, ofForest, Forest.nil_append]
    simp
  rw [heq, hall] at hcomplete hmirrors
  exact ⟨hcomplete, hmirrors⟩

end Program

/-! ### Trees of links -/

/-- The identities that a node lists, or the top. -/
def Arena.Lists (a : Arena) (parent : Option OpId) (id : OpId) : Prop :=
  ∃ block, a.children? parent = some block ∧ id ∈ block

/-- An arena whose links from above and from below make up a tree with unique values. -/
structure Arena.IsTree (a : Arena) : Prop where
  /-- No list has an identity twice. -/
  nodup : ∀ parent block, a.children? parent = some block → block.Nodup
  /-- No two lists have an identity in common. -/
  single : ∀ parent parent' id, a.Lists parent id → a.Lists parent' id → parent = parent'
  /-- What is listed is a node, and names the place that lists it as its parent. -/
  linked : ∀ parent id, a.Lists parent id → ∃ n, a.nodes[id]? = some n ∧ n.parent = parent
  /-- No chain of lists leads from a node back to itself. -/
  acyclic : ∀ id, ¬ Relation.TransGen (fun b c => a.Lists (some b) c) id id
  /-- The walk ends and has no identity twice, and no two nodes of it have the same result. -/
  walk : ∃ ids, a.walk? = some ids ∧ ids.Nodup ∧
    (ids.filterMap fun id => (a.nodes[id]?).bind Arena.Node.result).Nodup

namespace Program

/-- The arena lists below a place the children there. -/
theorem Complete.lists_iff (hp : p.Complete) : p.arena.Lists parent id ↔ id ∈
    p.children parent := by
  constructor
  · rintro ⟨block, hblock, hid⟩
    obtain ⟨-, rfl⟩ := hp.children?_arena_iff.1 hblock
    exact hid
  · exact fun hid => ⟨_, hp.children?_arena (Complete.isPlace_of_mem hid), hid⟩

/-- The links of a program in which every operation has a place make up a tree. -/
theorem Complete.isTree (hp : p.Complete) (hvalues : p.definedValues.Nodup) : p.arena.IsTree where
  nodup parent block hblock := by
    obtain ⟨-, rfl⟩ := hp.children?_arena_iff.1 hblock
    exact hp.tree.nodup_children parent
  single parent parent' id hid hid' := by
    rw [← hp.tree.parent?_eq (hp.lists_iff.1 hid), hp.tree.parent?_eq (hp.lists_iff.1 hid')]
  linked parent id hid := by
    have hmem := hp.lists_iff.1 hid
    have hlt : id < p.slots.size := by
      cases parent with
      | none => exact hp.tree.sound.created id (mem_walk_of_mem_roots hmem)
      | some a => exact hp.tree.sound.lt_size_of_walkIn (mem_walkIn_of_mem_children hmem)
    obtain ⟨s, hs, -, -⟩ := exists_slot hlt
    exact ⟨p.node id s, by rw [getElem?_arena, hs]; rfl, hp.tree.parent?_eq hmem⟩
  acyclic id := by
    simp only [hp.lists_iff]
    exact hp.tree.not_ancestor id
  walk := by
    refine ⟨p.walk, hp.walk?_arena, hp.tree.distinct_body, ?_⟩
    have hresult : p.walk.filterMap (fun id => (p.arena.nodes[id]?).bind Arena.Node.result) =
        p.definedValues := List.filterMap_congr fun id hid => by
      obtain ⟨s, hs, hop, -⟩ := exists_slot (hp.tree.sound.created id hid)
      rw [getElem?_arena, hs, hop]
      rfl
    rw [hresult]
    exact hvalues

end Program

/-! ### Stages -/

/-- **The tree of an arena.** A source becomes an arena by appending its operations, and every run
of stages edits this arena as it edits the program, whether they succeed or give up. What is left is
a tree with unique values: every operation is listed once at most, and names the one that lists it
as its parent, no chain of parents leads back to where it starts, and no operation of the walk has
the result of another. -/
theorem Stage.runEach_tree {source : String} (h : Source.parse source = .ok p)
    {stages : List Stage} (hstages : ∀ s ∈ stages, s ∈ builtin) :
    ({ attributes := p.attributes } : Program).Mirrors p ∧ p.Mirrors (runEach stages p) ∧
      (runEach stages p).arena.walk? = some (runEach stages p).walk ∧
      (runEach stages p).arena.IsTree := by
  obtain ⟨hforest, hregions⟩ := ofForest_of_parse h
  have hp := Source.orderly_of_parse h
  obtain ⟨hcomplete, hmirrors⟩ := Program.mirrors_ofForest p.attributes hregions
  rw [← hforest] at hcomplete hmirrors
  obtain ⟨hq, hpq⟩ := runEach_mirrors hstages hp hcomplete
  exact ⟨hmirrors, hpq, hq.walk?_arena, hq.isTree (runEach_orderly hstages hp).values⟩

/-- A core inside a core, and a registration that names no FIFO. -/
def nestedSource : String :=
  "aie.device(ipu) \x7b %t = aie.tile(0, 2)\n" ++
  "aie.core(%t) \x7b %u = aie.tile(0, 3)\naie.core(%u) \x7b aie.end \x7d \x7d\n" ++
  "aie.objectfifo.register_process \x7d"

/-- The cores become functions side by side, after a stage that gives up. -/
theorem Stage.runEach_tree_nested : ∃ p q, Source.parse nestedSource = .ok p ∧
    (Stage.registerObjectFifos.run p).1.toBool = false ∧
    runEach [.registerObjectFifos, .lowerCores] p = q ∧
    q.arena.walk? = some [7, 3, 8, 5, 9, 10] ∧
    ({ attributes := p.attributes } : Program).Mirrors p ∧ p.Mirrors q ∧ q.arena.IsTree := by
  have hsource : ∃ p, Source.parse nestedSource = .ok p ∧
      (Stage.registerObjectFifos.run p).1.toBool = false ∧
      (runEach [.registerObjectFifos, .lowerCores] p).walk = [7, 3, 8, 5, 9, 10] :=
    exists_ok_of_any (by decide +kernel)
  obtain ⟨p, hp, hfails, hwalk⟩ := hsource
  have hstages : ∀ s ∈ [Stage.registerObjectFifos, .lowerCores], s ∈ builtin := by simp [builtin]
  obtain ⟨hmade, hmirrors, hwalk?, htree⟩ := Stage.runEach_tree hp hstages
  exact ⟨p, _, hp, hfails, rfl, by rw [hwalk?, hwalk], hmade, hmirrors, htree⟩

end TileFlow
