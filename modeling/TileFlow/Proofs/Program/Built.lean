import TileFlow.Proofs.Program.Arena

/-!
# Arenas that edits build

An arena that is built from the empty one by edits of live nodes is that of a program, whatever the
edits are. So the links that its nodes store agree, and its walk is one list from which every node
that was erased is gone: each edit puts a node into this list, cuts an interval out of it or moves
one.

## Main definitions

* `Arena.Allows`: the edits of live nodes at places within bounds.
* `Arena.Built`: the arenas that such edits build.
* `Arena.Reorders`: what an edit does to the walk.

## Main results

* `Arena.Built.exists_program`: an arena that is built is that of a program.
* `Arena.Built.sequence`: its walk, its links and the effect of every further edit.
-/

namespace TileFlow

namespace Arena

/-- Whether a place is the top, or a node that is not erased. -/
def LivePlace (a : Arena) (parent : Option OpId) : Prop :=
  ∀ id, parent = some id → a.isLive? id = some true

/-- Whether an edit names live nodes and a place within bounds, inserts a node that lists none, and
moves no node under itself or one below it. -/
def Allows (a : Arena) : Rearrangement Arena.Node → Prop
  | .append parent n => a.LivePlace parent ∧ n.block = []
  | .insertAt parent i n =>
    a.LivePlace parent ∧ (∀ block, a.children? parent = some block → i ≤ block.length) ∧
      n.block = []
  | .insertBefore anchor n => a.isLive? anchor = some true ∧ n.block = []
  | .insertAfter anchor n => a.isLive? anchor = some true ∧ n.block = []
  | .erase id => a.isLive? id = some true
  | .moveTo id parent => a.isLive? id = some true ∧ a.LivePlace parent ∧
      ∀ below, a.walkIn? id = some below → ∀ b, parent = some b → b ∉ id :: below

/-- The arenas that allowed edits build from the empty one. -/
inductive Built : Arena → Prop
  | empty : Built {}
  | edit {a b : Arena} (e : Rearrangement Arena.Node) (before : Built a) (allowed : a.Allows e)
      (run : a.run? e = some b) : Built b

/-- Whether the nodes of a parent end between two parts of a walk, when some are taken out: the
nodes at the top end where the walk does. -/
def EndsBlock (a : Arena) (out : List OpId) (parent : Option OpId) (before after : List OpId) :
    Prop :=
  match parent with
  | none => after = []
  | some id => ∃ front below, a.walkIn? id = some below ∧
      before = front ++ id :: below.filter (· ∉ out)

/-- Whether the walk of another arena has one more node, at the end of those of a parent. -/
def AddsLast (a b : Arena) (parent : Option OpId) (new : OpId) : Prop :=
  ∃ A B, a.walk? = some (A ++ B) ∧ a.EndsBlock [] parent A B ∧ b.walk? = some (A ++ new :: B)

/-- Whether the walk of another arena has one more node, directly before another. -/
def AddsBefore (a b : Arena) (anchor new : OpId) : Prop :=
  ∃ A B, a.walk? = some (A ++ anchor :: B) ∧ b.walk? = some (A ++ new :: anchor :: B)

/-- What an edit does to the walk of an arena. The number of the nodes is the identity of a new
one. -/
def Reorders (a b : Arena) : Rearrangement Arena.Node → Prop
  | .append parent _ => a.AddsLast b parent a.nodes.size
  | .insertAt parent i _ => ∃ block, a.children? parent = some block ∧
      match block[i]? with
      | some anchor => a.AddsBefore b anchor a.nodes.size
      | none => a.AddsLast b parent a.nodes.size
  | .insertBefore anchor _ => a.AddsBefore b anchor a.nodes.size
  | .insertAfter anchor _ => ∃ A B below, a.walkIn? anchor = some below ∧
      a.walk? = some (A ++ (anchor :: below ++ B)) ∧
      b.walk? = some (A ++ (anchor :: below ++ a.nodes.size :: B))
  | .erase id => ∃ A B below, a.walkIn? id = some below ∧
      a.walk? = some (A ++ (id :: below ++ B)) ∧ b.walk? = some (A ++ B)
  | .moveTo id parent => ∃ A B C D below, a.walkIn? id = some below ∧
      a.walk? = some (A ++ (id :: below ++ B)) ∧ A ++ B = C ++ D ∧
      a.EndsBlock (id :: below) parent C D ∧
      b.walk? = some (C ++ (id :: below ++ D)) ∧ b.walkIn? id = some below

end Arena

namespace Program

variable {p : Program} {id : OpId} {parent : Option OpId} {e : Rearrangement Arena.Node}

/-- A live node of the arena is a live operation that was created. -/
theorem lt_size_of_isLive? (h : p.arena.isLive? id = some true) :
    id < p.slots.size ∧ p.isLive id = true := by
  by_cases hlt : id < p.slots.size
  · rw [Complete.isLive?_arena hlt] at h
    exact ⟨hlt, Option.some.inj h⟩
  · rw [Arena.isLive?, getElem?_arena, Array.getElem?_eq_none (Nat.le_of_not_lt hlt)] at h
    cases h

/-- A live place of the arena is one of the program. -/
theorem livePlace_of_arena (h : p.arena.LivePlace parent) : p.LivePlace parent :=
  fun a ha => (lt_size_of_isLive? (h a ha)).2

/-- A live place of the arena is a place of the forest. -/
theorem Complete.isPlace_of_livePlace (hp : p.Complete) (h : p.arena.LivePlace parent) :
    p.IsPlace parent :=
  hp.isPlace fun a ha => (lt_size_of_isLive? (h a ha)).1

/-- An edit that the arena of a program allows is allowed there, and is the same edit. -/
theorem Complete.run?_arena (hp : p.Complete) (h : p.arena.Allows e) :
    (e.map Arena.Node.op).Allowed p ∧ ((e.map Arena.Node.op).apply p).Complete ∧
      p.arena.run? e = some ((e.map Arena.Node.op).apply p).arena := by
  cases e with
  | append parent n =>
      have hplace := hp.isPlace_of_livePlace h.1
      refine ⟨livePlace_of_arena h.1, hp.append hplace _, ?_⟩
      rw [Arena.run?, hp.append?_arena hplace h.2]
      rfl
  | insertAt parent i n =>
      obtain ⟨hlive, hi, hn⟩ := h
      have hplace := hp.isPlace_of_livePlace hlive
      have hi := hi _ (hp.children?_arena hplace)
      refine ⟨⟨livePlace_of_arena hlive, hi⟩, hp.insertAt hplace hi _, ?_⟩
      rw [Arena.run?, hp.insertAt?_arena hplace hi hn]
      rfl
  | insertBefore anchor n =>
      obtain ⟨hlt, hlive⟩ := lt_size_of_isLive? h.1
      refine ⟨hlive, hp.insertBefore hlt _, ?_⟩
      rw [Arena.run?, hp.insertBefore?_arena hlt h.2]
      rfl
  | insertAfter anchor n =>
      obtain ⟨hlt, hlive⟩ := lt_size_of_isLive? h.1
      refine ⟨hlive, hp.insertAfter hlt _, ?_⟩
      rw [Arena.run?, hp.insertAfter?_arena hlt h.2]
      rfl
  | erase id =>
      obtain ⟨hlt, hlive⟩ := lt_size_of_isLive? h
      exact ⟨hlive, hp.erase hlt, hp.erase?_arena hlt⟩
  | moveTo id parent =>
      obtain ⟨hid, hlive, hapart⟩ := h
      obtain ⟨hlt, hidlive⟩ := lt_size_of_isLive? hid
      have hapart := hapart _ (hp.walkIn?_arena hlt)
      have hadmits : p.Admits id parent := fun a ha => by
        have hnot := hapart a ha
        rw [List.mem_cons, not_or] at hnot
        exact ⟨hp.isPlace_of_livePlace hlive a ha, hnot⟩
      exact ⟨⟨hidlive, livePlace_of_arena hlive, hapart⟩, hp.moveTo hlt hadmits,
        hp.moveTo?_arena hlt hadmits⟩

end Program

namespace Arena

variable {a b : Arena} {e : Rearrangement Arena.Node}

/-- An arena that is built is that of a program which every edit kept accounted for. -/
theorem Built.exists_program (h : a.Built) :
    ∃ p : Program, p.Accounted ∧ p.Complete ∧ p.arena = a := by
  induction h with
  | empty =>
      have htree : ({} : Program).Tree := ⟨Forest.distinct_nil, fun a ha => nomatch ha⟩
      exact ⟨{}, ⟨htree, fun id => by simp [Program.walk, Program.isLive]⟩,
        ⟨htree, (fun _ h => nomatch h), (fun _ h => nomatch h)⟩, rfl⟩
  | edit e _ allowed run ih =>
      obtain ⟨p, haccounted, hp, rfl⟩ := ih
      obtain ⟨hallowed, hcomplete, hrun⟩ := hp.run?_arena allowed
      exact ⟨_, haccounted.apply hallowed, hcomplete, Option.some.inj (hrun.symm.trans run)⟩

end Arena

/-! ### What edits do to the walk -/

namespace Program.Complete

variable {p q : Program} {e : Rearrangement Arena.Node} {parent : Option OpId} {new : OpId}
  {before after out : List OpId}

/-- The identity of an operation that is put before another is the number of those before. -/
theorem fst_insertBefore (p : Program) (anchor : OpId) (op : Operation) :
    (p.insertBefore anchor op).1 = p.slots.size := by
  rw [Program.insertBefore]
  split <;> rfl

/-- The identity of an operation that is put behind another is the number of those before. -/
theorem fst_insertAfter (p : Program) (anchor : OpId) (op : Operation) :
    (p.insertAfter anchor op).1 = p.slots.size := by
  rw [Program.insertAfter]
  split <;> rfl

/-- The end of a block in the walk of the program is one in the walk of the arena. -/
theorem endsBlock_arena (hp : p.Complete) (hlive : p.arena.LivePlace parent)
    (h : EndsBlock (fun a => (p.walkIn a).filter (· ∉ out)) parent before after) :
    p.arena.EndsBlock out parent before after := by
  cases parent with
  | none => exact h
  | some a =>
      obtain ⟨front, hfront⟩ := h
      exact ⟨front, _, hp.walkIn?_arena (lt_size_of_isLive? (hlive a rfl)).1, hfront⟩

/-- What comes last in a block of the program comes last in that of the arena. -/
theorem addsLast_arena (hp : p.Complete) (hq : q.Complete) (hlive : p.arena.LivePlace parent)
    (h : Rearrangement.AddsLast p q parent new) : p.arena.AddsLast q.arena parent new := by
  obtain ⟨A, B, hwalk, hends, hwalk'⟩ := h
  refine ⟨A, B, by rw [hp.walk?_arena, hwalk], hp.endsBlock_arena hlive ?_,
    by rw [hq.walk?_arena, hwalk']⟩
  simpa using hends

/-- What comes before an anchor in the walk of the program does so in that of the arena. -/
theorem addsBefore_arena (hp : p.Complete) (hq : q.Complete) {anchor : OpId}
    (h : Rearrangement.AddsBefore p q anchor new) : p.arena.AddsBefore q.arena anchor new := by
  obtain ⟨A, B, hwalk, hwalk'⟩ := h
  exact ⟨A, B, by rw [hp.walk?_arena, hwalk], by rw [hq.walk?_arena, hwalk']⟩

/-- What an edit does to the sequence of a program it does to the walk of the arena. -/
theorem reorders_arena (hp : p.Complete) (hq : q.Complete) (h : p.arena.Allows e)
    (hreorders : (e.map Arena.Node.op).Reorders p q) : p.arena.Reorders q.arena e := by
  have hnew : p.arena.nodes.size = p.slots.size := size_arena p
  cases e with
  | append parent n =>
      rw [Arena.Reorders, hnew]
      exact hp.addsLast_arena hq h.1 hreorders
  | insertAt parent i n =>
      rw [Arena.Reorders, hnew]
      refine ⟨_, hp.children?_arena (hp.isPlace_of_livePlace h.1), ?_⟩
      rw [Rearrangement.map, Rearrangement.Reorders] at hreorders
      revert hreorders
      cases (p.children parent)[i]? with
      | none => exact hp.addsLast_arena hq h.1
      | some anchor => exact hp.addsBefore_arena hq
  | insertBefore anchor n =>
      rw [Arena.Reorders, hnew]
      rw [Rearrangement.map, Rearrangement.Reorders, fst_insertBefore] at hreorders
      exact hp.addsBefore_arena hq hreorders
  | insertAfter anchor n =>
      obtain ⟨A, B, hwalk, hwalk'⟩ := hreorders
      refine ⟨A, B, _, hp.walkIn?_arena (lt_size_of_isLive? h.1).1, ?_, ?_⟩
      · rw [hp.walk?_arena, hwalk, interval]
      · rw [hq.walk?_arena, hwalk', hnew, fst_insertAfter, interval]
  | erase id =>
      obtain ⟨A, B, hwalk, hwalk'⟩ := hreorders
      refine ⟨A, B, _, hp.walkIn?_arena (lt_size_of_isLive? h).1, ?_, ?_⟩
      · rw [hp.walk?_arena, hwalk, interval]
      · rw [hq.walk?_arena, hwalk']
  | moveTo id parent =>
      obtain ⟨A, B, C, D, hwalk, hrest, hends, hwalk', hinterval⟩ := hreorders
      have hid := (lt_size_of_isLive? h.1).1
      have hqid : id < q.slots.size := by
        refine hq.tree.sound.created id ?_
        rw [hwalk']
        simp [interval]
      rw [interval, interval] at hinterval
      refine ⟨A, B, C, D, _, hp.walkIn?_arena hid, ?_, hrest,
        hp.endsBlock_arena h.2.1 hends, ?_, ?_⟩
      · rw [hp.walk?_arena, hwalk, interval]
      · rw [hq.walk?_arena, hwalk', interval]
      · rw [hq.walkIn?_arena hqid, List.tail_eq_of_cons_eq hinterval]

end Program.Complete

/-- In an arena that is built by edits of live nodes the walk comes to an end and lists the nodes
that are not erased, each of them once. The node that a live one was put below lists it where its
position says, and no other place is its position. Every further edit of live nodes succeeds, and
changes the walk in its own way. -/
theorem Arena.Built.sequence {a : Arena} (h : a.Built) : ∃ walk, a.walk? = some walk ∧
    walk.Nodup ∧ (∀ id, id ∈ walk ↔ a.isLive? id = some true) ∧
      (∀ id parent i, a.isLive? id = some true →
        (a.position? id = some (some (parent, i)) ↔
          ∃ block, a.children? parent = some block ∧ block[i]? = some id)) ∧
      ∀ e, a.Allows e → ∃ b, a.run? e = some b ∧ a.Reorders b e := by
  obtain ⟨p, haccounted, hp, rfl⟩ := h.exists_program
  refine ⟨p.walk, hp.walk?_arena, hp.tree.distinct_body, fun id => ?_, fun id parent i hid => ?_,
    fun e he => ?_⟩
  · rw [haccounted.live]
    constructor
    · intro hlive
      rw [Program.Complete.isLive?_arena (hp.tree.sound.created id ((haccounted.live id).2 hlive)),
        hlive]
    · exact fun hlive => (Program.lt_size_of_isLive? hlive).2
  · rw [hp.position?_arena (Program.lt_size_of_isLive? hid).1, Option.some.injEq,
      hp.tree.locate?_eq_some_iff]
    simp only [hp.children?_arena_iff]
    constructor
    · exact fun hi => ⟨_, ⟨Program.Complete.isPlace_of_mem (List.mem_of_getElem? hi), rfl⟩, hi⟩
    · rintro ⟨_, ⟨-, rfl⟩, hi⟩
      exact hi
  · obtain ⟨hallowed, hq, hrun⟩ := hp.run?_arena he
    exact ⟨_, hrun, hp.reorders_arena hq he (Rearrangement.reorders haccounted hallowed)⟩

/-- A device that lists two cores, with a third one behind it. -/
def coresArena : Arena where
  nodes := #[{ name := "aie.device", region := some [3, 2] }, { name := "aie.core" },
    { name := "aie.core", parent := some 0 }, { name := "aie.core", parent := some 0 }]
  body := [0, 1]

/-- It is built when a core is put after another one, which is moved to the top, and one more is put
before it. -/
theorem Arena.Built.sequence_of_cores : coresArena.Built ∧
    coresArena.walk? = some [0, 3, 2, 1] ∧ ∃ walk, coresArena.walk? = some walk ∧ walk.Nodup ∧
      (∀ id, id ∈ walk ↔ coresArena.isLive? id = some true) ∧
      (∀ id parent i, coresArena.isLive? id = some true →
        (coresArena.position? id = some (some (parent, i)) ↔
          ∃ block, coresArena.children? parent = some block ∧ block[i]? = some id)) ∧
      ∀ e, coresArena.Allows e → ∃ b, coresArena.run? e = some b ∧ coresArena.Reorders b e := by
  have hdevice := Built.edit (.append none { name := "aie.device" }) .empty ⟨nofun, rfl⟩ rfl
  have hfirst := hdevice.edit (.append (some 0) { name := "aie.core" })
    ⟨by rintro _ ⟨⟩; rfl, rfl⟩ rfl
  have hsecond := hfirst.edit (.insertAfter 1 { name := "aie.core" }) ⟨rfl, rfl⟩ rfl
  have hmoved := hsecond.edit (.moveTo 1 none) ⟨rfl, nofun, nofun⟩ rfl
  have hbuilt : coresArena.Built :=
    hmoved.edit (.insertBefore 2 { name := "aie.core" }) ⟨rfl, rfl⟩ rfl
  exact ⟨hbuilt, rfl, hbuilt.sequence⟩

end TileFlow
