import TileFlow.Proofs.Source.Written
import TileFlow.Proofs.Stage.Hidden
import TileFlow.Proofs.Stage.Values

/-!
# Programs that stay legible

A program is legible when it can be written and loaded, and will still be when the stages have put
other operations in the place of some: the texts that become names of values, bundles and symbols
can be names, no tile has a negative coordinate, and nothing that a stage erases defines a value.

Each edit keeps a program legible under conditions on one operation. A new one uses values that
come before its place and defines none below an operation that may be erased; a changed one uses
values that it used, or that come before it; and only such operations are erased.

A stage that replaces operations of devices puts others in their place, and then erases them. The
first part loses nothing of the program, and keeps it legible if every new operation uses values
that are known at its place; the second part keeps it legible, since what is erased defines no
value.

## Main definitions

* `Operation.GivesNames`: an operation whose texts can become names.
* `Program.Legible`: the programs that stages keep loadable.
* `Program.Rewords`: an operation that may take the place of another.
* `Program.Extends`: edits that keep a program legible and lose none of its operations.
* `Program.Places`: the creation of one operation, next to another one.

## Main results

* `Program.Legible.loadable`: a legible program can be written and loaded.
* `Program.Legible.insertAt`, `Program.Legible.modify`, `Program.Legible.erase`: every edit.
* `Program.KnownAt.extends`: what is known stays known.
* `Program.Legible.insertBefore_ok`, `Program.Legible.append_ok`: the creations of stages.
* `Stage.legible_replace`: a stage that replaces the operations with a name.
-/

/-! ## Programs -/

namespace TileFlow

open Source

/-- The operations that describe the end of a stream by a bundle. -/
def endpointNames : List String :=
  ["aie.packet_source", "aie.packet_dest", "aiex.broadcast_packet", "aiex.bp_dest"]

/-- The identifiers that stages write, as names, keys and operands. -/
def stageIdents : List String :=
  ["aie.device", "xcvc1902", "scf.for", "scf.if", "scf.yield", "memref.load", "memref.store",
    "cf.loop", "cf.cond", "aie.core", "aie.end", "aie.objectfifo.acquire", "aie.objectfifo.release",
    "func.call", "produce", "consume", "aie.buffer", "aie.lock", "sym_name", "size",
      "init", "aie.flow",
    "DMA", "aie.shim_dma_allocation", "MM2S", "S2MM", "aie.use_lock", "acquire_ge", "release",
    "address"]

/-- The identifiers that stages write are lexemes. -/
theorem isLexeme_of_mem_stageIdents : ∀ s ∈ stageIdents, Token.IsLexeme (.ident s) := by
  decide +kernel

/-- The identifier of a lock can be written. -/
theorem Integer.fits_of_lt_lockCount {model : DeviceModel} {row n : Int} (hpos : 0 ≤ n)
    (hlimit : n < model.lockCount row) : Integer.Fits n := by
  have hcount : model.lockCount row ≤ 64 := by
    rw [DeviceModel.lockCount]
    split <;> omega
  exact ⟨by omega, by omega⟩

/-- Whether the texts of an operation can become names: a FIFO gives its name to values, the end of
a stream its bundle to a rule, and a tile its coordinates to the tiles on paths from there. -/
structure Operation.GivesNames (op : Operation) : Prop where
  fifo : op.is "aie.objectfifo" = true → ∀ s, op.textAttr? "sym_name" = some s →
    Token.IsLexeme (.value s)
  bundle : op.name ∈ endpointNames → ∀ s, op.operandText? 1 = some s → Token.IsLexeme (.ident s)
  tile : op.is "aie.tile" = true → ∀ t, op.tile? = some t → 0 ≤ t.column ∧ 0 ≤ t.row

/-- Whether an operation can be written, and so can what stages make of it. -/
structure Operation.IsLegible (op : Operation) : Prop extends op.IsWritten, op.GivesNames

namespace Operation

variable {op op' : Operation}

/-- The names of operations whose texts matter. -/
def namingNames : List String :=
  "aie.objectfifo" :: "aie.tile" :: endpointNames

/-- The texts of other operations are free. -/
theorem givesNames_of_name (h : op.name ∉ namingNames) : op.GivesNames where
  fifo hop := absurd (beq_iff_eq.1 hop ▸ by decide : op.name ∈ namingNames) h
  bundle hop := absurd (List.mem_cons_of_mem _ (List.mem_cons_of_mem _ hop)) h
  tile hop := absurd (beq_iff_eq.1 hop ▸ by decide : op.name ∈ namingNames) h

/-- An operation without result and attributes, of which only the operands are to be looked at. -/
theorem isLegible_of_operands {name : String} {operands : List Attribute} (hasRegion : Bool)
    (hname : Token.IsLexeme (.ident name)) (hfree : name ∉ namingNames)
    (hoperands : ∀ a ∈ operands, a.IsWrittenOperand) :
    IsLegible { name, operands, hasRegion } where
  name := hname
  result _ hv := by cases hv
  operands := hoperands
  attributes _ he := absurd he List.not_mem_nil
  toGivesNames := givesNames_of_name hfree

/-- An operation with the header of a legible one is legible. -/
theorem IsLegible.of_sameHeader (h : op.IsLegible) (hop : op.SameHeader op') : op'.IsLegible where
  toIsWritten := h.toIsWritten.of_sameHeader hop
  fifo hname s hs := h.fifo (hop.is _ ▸ hname) s (hop.textAttr? _ ▸ hs)
  bundle hname s hs := h.bundle (hop.name ▸ hname) s (by
    rw [operandText?, hop.operands] at hs
    exact hs)
  tile hname t ht := h.tile (hop.is _ ▸ hname) t (by
    rw [Operation.tile?, operandInt?, operandInt?, hop.operands] at ht
    exact ht)

/-- Only the name of a FIFO matters among the attributes. -/
theorem GivesNames.withAttr {key : String} {a : Attribute} (h : op.GivesNames)
    (hkey : key ≠ "sym_name") : (op.withAttr key a).GivesNames where
  fifo hname s hs := by
    refine h.fifo hname s ?_
    rwa [textAttr?, attr?, Operation.withAttr, Dictionary.get?_insert, if_neg hkey] at hs
  bundle hname s hs := h.bundle hname s hs
  tile hname t ht := h.tile hname t ht

end Operation

namespace Program

variable {p q : Program} {id x : OpId} {op : Operation} {parent : Option OpId} {i : Nat}

/-- A program that can be written and loaded, and of which the same holds when stages have replaced
operations. The operations outside the body are still read by stages that look at them. -/
structure Legible (p : Program) : Prop where
  tree : p.Tree
  values : p.definedValues.Nodup
  scope : p.IsScoped
  legible : ∀ id < p.slots.size, (p.op id).IsLegible
  regions : ∀ id ∈ p.walk, (p.op id).hasRegion = false → p.walkIn id = []
  barren : p.DefinesNone discardedNames
  attributes : ∀ e ∈ p.attributes.entries, Token.IsLexeme (.ident e.1) ∧ e.2.IsWritten

namespace Legible

/-- A legible program is sound. -/
theorem sound (hp : p.Legible) : p.Sound :=
  hp.tree.sound

/-- The operations of a legible program are legible. -/
theorem of_walk (hp : p.Legible) (hid : id ∈ p.walk) : (p.op id).IsLegible :=
  hp.legible id (hp.sound.created id hid)

/-- A legible program can be written and loaded. -/
theorem loadable (hp : p.Legible) : p.Loadable where
  wellFormed := hp.sound.toWellFormed
  values := hp.values
  scope := hp.scope
  written _ hid := (hp.of_walk hid).toIsWritten
  regions := hp.regions
  attributes := hp.attributes

end Legible

/-! ### Creation -/

/-- A creation leaves every operation but the place as it is. -/
theorem op_insertAt_of_ne (hid : id < p.slots.size) (hparent : parent ≠ some id) (i : Nat)
    (op : Operation) : (p.insertAt parent i op).2.op id = p.op id := by
  cases parent with
  | none => exact op_congr (slot_insertAt_none hid i op)
  | some a => exact op_congr (slot_insertAt_some (fun h => hparent (by rw [h])) hid i op)

/-- A creation leaves the attributes of the program alone. -/
theorem attributes_insertAt (p : Program) (parent : Option OpId) (i : Nat) (op : Operation) :
    (p.insertAt parent i op).2.attributes = p.attributes := by
  cases parent <;> rfl

/-- A new operation keeps a program legible if it is legible, the values that it uses are defined by
operations that precede it, and what it defines is new and not in a tree that may be erased. -/
theorem Legible.insertAt (hp : p.Legible) (hop : op.IsLegible)
    (hscope : p.Holds parent → ∀ v, .value v ∈ op.operands →
      ∃ d, (p.insertAt parent i op).2.Precedes d p.slots.size ∧ (p.op d).result = some v)
    (hfresh : ∀ v, op.result = some v → v ∉ p.definedValues)
    (hbarren : op.result ≠ none → op.name ∉ discardedNames ∧
      ∀ a, parent = some a → ∀ x ∈ p.walk, (p.op x).name ∈ discardedNames →
        a ≠ x ∧ a ∉ p.walkIn x) : (p.insertAt parent i op).2.Legible := by
  have hnew := created_insertAt hp.sound parent i op
  have hresult : ∀ id ∈ p.walk,
      ((p.insertAt parent i op).2.op id).result = (p.op id).result := fun id hid =>
    (hnew.old id (hp.sound.created id hid)).result
  refine ⟨hp.tree.insertAt parent i op, hnew.nodup hp.sound hp.values hfresh, fun id hid v hv => ?_,
    fun id hid => ?_, fun id hid hregion => ?_, fun x hx hname id hid => ?_, ?_⟩
  · rcases (hnew.walk id).1 hid with hold | ⟨rfl, hholds⟩
    · rw [(hnew.old id (hp.sound.created id hold)).operands] at hv
      obtain ⟨d, hd, hdv⟩ := hp.scope id hold v hv
      exact ⟨d, List.Sublist.trans hd (hp.sound.walk_insertAt_sublist parent i op),
        (hresult d hd.left_mem).trans hdv⟩
    · rw [hnew.new hholds] at hv
      obtain ⟨d, hd, hdv⟩ := hscope hholds v hv
      refine ⟨d, hd, ?_⟩
      rcases (hnew.walk d).1 hd.left_mem with hold | ⟨rfl, -⟩
      · exact (hresult d hold).trans hdv
      · exact absurd rfl (ne_of_pair_sublist hnew.sound.distinct hd)
  · rw [hnew.size] at hid
    rcases Nat.lt_succ_iff_lt_or_eq.1 hid with hlt | rfl
    · exact (hp.legible id hlt).of_sameHeader (hnew.old id hlt)
    · exact hop.of_sameHeader hnew.header
  · rcases (hnew.walk id).1 hid with hold | ⟨rfl, hholds⟩
    · have hlt := hp.sound.created id hold
      have hparent : parent ≠ some id := by
        rintro rfl
        rw [op_insertAt_parent hlt] at hregion
        cases hregion
      rw [op_insertAt_of_ne hlt hparent] at hregion
      have hnil := hp.regions id hold hregion
      refine List.eq_nil_iff_forall_not_mem.2 fun y hy => ?_
      rcases (hnew.walkIn id hold y).1 hy with hy | ⟨-, b, rfl, hb⟩
      · rw [hnil] at hy
        cases hy
      · rw [hnil] at hb
        rcases hb with rfl | hb
        · exact hparent rfl
        · cases hb
    · exact hnew.leaf hholds
  · rcases (hnew.walk x).1 hx with hold | ⟨rfl, hholds⟩
    · rw [(hnew.old x (hp.sound.created x hold)).name] at hname
      rcases List.mem_cons.1 hid with rfl | hid
      · rw [hresult id hold]
        exact hp.barren id hold hname id List.mem_cons_self
      · rcases (hnew.walkIn x hold id).1 hid with hid | ⟨rfl, b, rfl, hb⟩
        · rw [hresult id (hp.sound.mem_walk_of_walkIn hold hid)]
          exact hp.barren x hold hname id (List.mem_cons_of_mem _ hid)
        · rw [hnew.header.result]
          by_contra hne
          obtain ⟨hbx, hbelow⟩ := (hbarren hne).2 b rfl x hold hname
          exact hb.elim hbx hbelow
    · rw [hnew.leaf hholds, List.mem_singleton] at hid
      subst hid
      rw [hnew.header.name] at hname
      rw [hnew.header.result]
      by_contra hne
      exact (hbarren hne).1 hname
  · rw [attributes_insertAt]
    exact hp.attributes

/-- A new operation that defines nothing. -/
theorem Legible.insertAt_of_none (hp : p.Legible) (hop : op.IsLegible) (hresult : op.result = none)
    (hscope : p.Holds parent → ∀ v, .value v ∈ op.operands →
      ∃ d, (p.insertAt parent i op).2.Precedes d p.slots.size ∧ (p.op d).result = some v) :
    (p.insertAt parent i op).2.Legible :=
  hp.insertAt hop hscope (fresh_of_none hresult) fun hne => absurd hresult hne

/-! ### Changes -/

/-- Whether an operation may take the place of another one. -/
structure Rewords (p : Program) (id : OpId) (op : Operation) : Prop where
  legible : op.IsLegible
  result : op.result = (p.op id).result
  region : op.hasRegion = (p.op id).hasRegion
  name : op.name ∈ discardedNames → (p.op id).name ∈ discardedNames
  uses : id ∈ p.walk → ∀ v, .value v ∈ op.operands →
    .value v ∈ (p.op id).operands ∨ p.KnownAt id v

/-- Leaving a legible operation as it is rewords it. -/
theorem Rewords.refl (h : (p.op id).IsLegible) : p.Rewords id (p.op id) where
  legible := h
  result := rfl
  region := rfl
  name hname := hname
  uses _ _ hv := .inl hv

/-- A change of an operation that was never created changes nothing. -/
theorem modify_of_size_le (h : p.slots.size ≤ id) (f : Operation → Operation) : p.modify
    id f = p := by
  have hslots : (p.slots.modify id fun s => { s with op := f s.op }) = p.slots :=
    Array.ext (by simp) fun i hi _ => by
      rw [Array.size_modify] at hi
      rw [Array.getElem_modify, if_neg (by omega)]
  rw [modify, hslots]

/-- A program stays legible when an operation is reworded. -/
theorem Legible.modify (hp : p.Legible) {f : Operation → Operation}
    (h : id < p.slots.size → p.Rewords id (f (p.op id))) : (p.modify id f).Legible := by
  rcases Nat.lt_or_ge id p.slots.size with hlt | hge
  case inr => rwa [modify_of_size_le hge]
  replace h := h hlt
  have hresult : ∀ j, ((p.modify id f).op j).result = (p.op j).result := fun j => by
    by_cases hj : j = id
    · subst hj
      rw [op_modify_self hlt, h.result]
    · rw [op_modify_of_ne hj]
  refine ⟨hp.tree.modify id f, nodup_of_results hp.values
    (hp.sound.modify id f).toWellFormed fun j hj => ⟨hj, hresult j⟩, fun j hj v hv => ?_,
    fun j hj => ?_, fun j hj hregion => ?_, fun x hx hname j hj => ?_, hp.attributes⟩
  · have hold : .value v ∈ (p.op j).operands ∨ p.KnownAt j v := by
      by_cases hji : j = id
      · subst hji
        rw [op_modify_self hlt] at hv
        exact h.uses hj v hv
      · rw [op_modify_of_ne hji] at hv
        exact .inl hv
    obtain ⟨d, hd, hdv⟩ := hold.elim (hp.scope j hj v) fun hd => hd
    exact ⟨d, hd, (hresult d).trans hdv⟩
  · rw [size_modify] at hj
    by_cases hji : j = id
    · subst hji
      rw [op_modify_self hlt]
      exact h.legible
    · rw [op_modify_of_ne hji]
      exact hp.legible j hj
  · exact hp.regions j hj (of_op_modify (K := fun op => op.hasRegion = false) hlt
      (fun hf => h.region ▸ hf) hregion)
  · rw [hresult j]
    exact hp.barren x hx (of_op_modify (K := fun op => op.name ∈ discardedNames) hlt h.name hname)
      j hj

/-! ### Erasure -/

/-- An operation that may be erased takes no value along. -/
theorem Legible.erase (hp : p.Legible) (hx : x < p.slots.size)
    (hname : (p.op x).name ∈ discardedNames) : (p.erase x).Legible := by
  have hcut := cut_erase hp.sound hx
  refine ⟨hp.tree.erase hx, nodup_of_results hp.values hcut.sound.toWellFormed fun id hid =>
    ⟨((hcut.walk id).1 hid).1, by rw [hcut.op]⟩, fun id hid v hv => ?_, fun id hid => ?_,
    fun id hid hregion => ?_, fun y hy hyname id hid => ?_, hp.attributes⟩
  · rw [hcut.op] at hv
    have hold := ((hcut.walk id).1 hid).1
    obtain ⟨d, hd, hdv⟩ := hp.scope id hold v hv
    have hkept : d ≠ x ∧ d ∉ p.walkIn x := by
      by_cases hxwalk : x ∈ p.walk
      · have hnone := hp.barren x hxwalk hname
        refine ⟨fun hdx => ?_, fun hdx => ?_⟩
        · rw [hnone d (hdx ▸ List.mem_cons_self)] at hdv
          cases hdv
        · rw [hnone d (List.mem_cons_of_mem _ hdx)] at hdv
          cases hdv
      · exact ⟨fun hdx => hxwalk (hdx ▸ hd.left_mem),
          fun hdx => hp.sound.notMem_walk_of_walkIn hxwalk hdx hd.left_mem⟩
    exact ⟨d, pair_sublist_of_sublist hp.sound.distinct (hp.sound.walk_erase_sublist x) hd
      ((hcut.walk d).2 ⟨hd.left_mem, hkept⟩) hid, by rw [hcut.op, hdv]⟩
  · rw [hcut.size] at hid
    rw [hcut.op]
    exact hp.legible id hid
  · rw [hcut.op] at hregion
    have hnil := hp.regions id ((hcut.walk id).1 hid).1 hregion
    refine List.eq_nil_iff_forall_not_mem.2 fun y hy => ?_
    have hold := ((hcut.walkIn id hid y).1 hy).1
    rw [hnil] at hold
    cases hold
  · rw [hcut.op] at hyname ⊢
    have hold := hp.barren y ((hcut.walk y).1 hy).1 hyname id
    rcases List.mem_cons.1 hid with rfl | hid
    · exact hold List.mem_cons_self
    · exact hold (List.mem_cons_of_mem _ ((hcut.walkIn y hy id).1 hid).1)

end Program

end TileFlow

/-! ## Stages that replace operations -/

namespace TileFlow

open TileFlow.Action

variable {rule : EditRule} {p q r : Program} {id x a anchor device : OpId} {op : Operation}

namespace Program

/-- A legible program that edits make of another one, with all of its operations. -/
structure Extends (p : Program) (rule : EditRule) (q : Program) : Prop where
  edits : p.Edits rule q
  legible : q.Legible
  kept : ∀ id ∈ p.walk, id ∈ q.walk

namespace Extends

/-- A legible program extends itself. -/
theorem refl (hp : p.Legible) : p.Extends rule p :=
  ⟨.refl, hp, fun _ hid => hid⟩

/-- Extensions may follow each other. -/
theorem trans (h : p.Extends rule q) (h' : q.Extends rule r) : p.Extends rule r :=
  ⟨h.edits.trans h'.edits, h'.legible, fun id hid => h'.kept id (h.kept id hid)⟩

end Extends

/-- What is known at an operation stays known. -/
theorem KnownAt.extends {v : String} (hrule : rule.KeepsValues discardedNames) (hp : p.Legible)
    (hx : x ∈ p.walk) (h : p.KnownAt x v) (hq : p.Extends rule q) : q.KnownAt x v :=
  h.resolves hp.sound hq.edits (hq.edits.resolves_of_definesNone hrule hp.sound hp.barren)
    (hq.kept x hx)

/-- A loop makes the edits of its rounds. -/
theorem Extends.forM {β : Type} {l : List β} {f : β → Action Unit} (hp : p.Legible)
    (h : runOn (l.forM f) p = (.ok (), q))
    (step : ∀ b ∈ l, ∀ r s, p.Extends rule r → runOn (f b) r = (.ok (), s) → r.Extends rule s) :
    p.Extends rule q :=
  forM_induction (I := p.Extends rule) h (.refl hp) fun b hb r s hr hrun =>
    hr.trans (step b hb r s hr hrun)

/-! ### Creation -/

/-- One new operation next to, or below, another one: it comes after whatever that one comes
after. -/
structure Places (p : Program) (rule : EditRule) (x : OpId) (op : Operation) (id : OpId)
    (q : Program) : Prop extends p.Extends rule q where
  new : id = p.slots.size
  only : ∀ y ∈ q.walk, y ∈ p.walk ∨ y = id
  header : op.SameHeader (q.op id)
  near : ∀ b ∈ p.walk, id ∈ q.walkIn b → x = b ∨ x ∈ p.walkIn b
  follows : ∀ d, p.Precedes d x → q.Precedes d id

/-- What is known at an operation is known at a new one next to it. -/
theorem Places.known {v : String} (h : p.Places rule x op id q) (hp : p.Sound)
    (hrule : rule.KeepsValues discardedNames) (hv : p.KnownAt x v) : q.KnownAt id v := by
  obtain ⟨d, hd, hdv⟩ := hv
  refine ⟨d, h.follows d hd, ?_⟩
  rw [h.edits.result_eq hrule hp (hp.created d hd.left_mem), hdv]

/-- An operation that is put before one of the body, and not into a tree that may be erased if it
defines a value, keeps a program legible if it uses values that are known there. -/
theorem Legible.insertBefore_ok (hp : p.Legible) (hanchor : anchor ∈ p.walk)
    (h : runOn (Action.insertBefore anchor op) p = (.ok id, q)) (hedits : p.Edits rule q)
    (hop : op.IsLegible) (huses : ∀ v, .value v ∈ op.operands → p.KnownAt anchor v)
    (hfresh : ∀ v, op.result = some v → v ∉ p.definedValues)
    (hbarren : op.result ≠ none → op.name ∉ discardedNames ∧
      ∀ x ∈ p.walk, (p.op x).name ∈ discardedNames → anchor ∉ p.walkIn x) :
    p.Places rule anchor op id q ∧ q.Precedes id anchor := by
  obtain ⟨parent, i, heq, hholds, hbelow, hbefore, horder⟩ :=
    hp.tree.insertBefore_eq hanchor op
  rw [runOn_insertBefore, heq, Prod.mk.injEq, Except.ok.injEq] at h
  obtain ⟨rfl, rfl⟩ := h
  have hnew := created_insertAt hp.sound parent i op
  have hlegible : (p.insertAt parent i op).2.Legible := by
    refine hp.insertAt hop (fun _ v hv => ?_) hfresh fun hne => ?_
    · obtain ⟨d, hd, hdv⟩ := huses v hv
      exact ⟨d, horder d hd, hdv⟩
    · obtain ⟨hname, hshown⟩ := hbarren hne
      refine ⟨hname, fun a ha x hx hxname => ⟨?_, fun hax => ?_⟩⟩
      · rintro rfl
        exact hshown a hx hxname (hbelow a ha)
      · exact hshown x hx hxname (hp.tree.walkIn_trans hax (hbelow a ha))
  refine ⟨⟨⟨hedits, hlegible, fun id hid => (hnew.walk id).2 (.inl hid)⟩, rfl,
    fun y hy => ((hnew.walk y).1 hy).imp_right And.left, hnew.header, fun b hb hid => .inr ?_,
    horder⟩, hbefore⟩
  rcases (hnew.walkIn b hb _).1 hid with hold | ⟨-, a, ha, hab⟩
  · exact absurd (hp.sound.lt_size_of_walkIn hold) (Nat.lt_irrefl _)
  · rcases hab with rfl | hab
    · exact hbelow a ha
    · exact hp.tree.walkIn_trans hab (hbelow a ha)

/-- An operation that defines nothing and is put last below another one keeps a program legible if
it uses values that are known at that one, or that are defined in its tree. -/
theorem Legible.append_ok (hp : p.Legible) (h : runOn (Action.append a op) p = (.ok id, q))
    (hedits : p.Edits rule q) (hop : op.IsLegible) (hresult : op.result = none)
    (huses : a ∈ p.walk → ∀ v, .value v ∈ op.operands →
      p.KnownAt a v ∨ ∃ d ∈ p.interval a, (p.op d).result = some v) :
    p.Places rule a op id q ∧
      (a ∈ p.walk → id ∈ q.walkIn a ∧ ∀ x ∈ p.interval a, q.Precedes x id) := by
  rw [runOn_append, Prod.mk.injEq, Except.ok.injEq] at h
  obtain ⟨rfl, rfl⟩ := h
  have hnew := created_insertAt hp.sound (some a) (p.children (some a)).length op
  have hlast : a ∈ p.walk → ∀ x ∈ p.interval a, (p.append (some a) op).2.Precedes x p.slots.size :=
    fun ha x hx => hp.tree.precedes_append ha op hx
  have horder : ∀ d, p.Precedes d a → (p.append (some a) op).2.Precedes d p.slots.size :=
    fun d hd => by
      have hda : (p.append (some a) op).2.Precedes d a :=
        List.Sublist.trans hd (hp.sound.walk_insertAt_sublist (some a) _ op)
      exact hda.trans hnew.sound (hlast hd.right_mem a List.mem_cons_self)
  have hlegible : (p.append (some a) op).2.Legible := by
    refine hp.insertAt_of_none hop hresult fun hholds v hv => ?_
    have ha : a ∈ p.walk := hholds a rfl
    rcases huses ha v hv with ⟨d, hd, hdv⟩ | ⟨d, hd, hdv⟩
    · exact ⟨d, horder d hd, hdv⟩
    · exact ⟨d, hlast ha d hd, hdv⟩
  refine ⟨⟨⟨hedits, hlegible, fun id hid => (hnew.walk id).2 (.inl hid)⟩, rfl,
    fun y hy => ((hnew.walk y).1 hy).imp_right And.left, hnew.header, fun b hb hid => ?_, horder⟩,
    fun ha => ⟨(hnew.walkIn a ha _).2 (.inr ⟨rfl, a, rfl, .inl rfl⟩), hlast ha⟩⟩
  rcases (hnew.walkIn b hb _).1 hid with hold | ⟨-, c, hc, hcb⟩
  · exact absurd (hp.sound.lt_size_of_walkIn hold) (Nat.lt_irrefl _)
  · cases hc
    exact hcb

end Program

/-! ### Stages -/

namespace Stage

/-- A stage that puts other operations in the place of those with a name keeps programs legible, and
whatever else its rounds keep. The operations that it works on are in the body, if none of them is
below one that may be erased. -/
theorem legible_replace {name : String} {f : OpId → OpId → Action Unit} {J : Program → Prop}
    (hrule : rule.SparesDevices) (hname : rule.Dissolves name)
    (hkeeps : rule.KeepsValues discardedNames) (hmem : name ∈ discardedNames)
    (hp : p.Legible) (start : J p)
    (h : runOn (onEachDevice fun device => do ((← get).findIn device name).forM (f device)) p =
      (.ok (), q))
    (step : ∀ device x r s, r.Legible → J r → p.Edits rule r → device ∈ r.devices →
      x < r.slots.size → (r.op x).is name = true → (x ∈ r.walk → x ∈ r.walkIn device) →
      (p.HidesNone discardedNames [name] → x ∈ r.walk) → runOn (f device x) r = (.ok (), s) →
      ∃ t, r.Extends rule t ∧ s = t.erase x ∧ J s) : q.Legible ∧ J q := by
  have hexposes : rule.Exposes [name] :=
    { creates := fun r parent op hop hin => by
        rw [List.mem_singleton] at hin
        have hno := hname.creates r parent op hop
        simp [Operation.is, hin] at hno
      changes := fun r id op hop hin => by
        rw [List.mem_singleton] at hin ⊢
        have hsame := hname.changes r id op hop
        exact beq_iff_eq.1 (hsame.symm.trans (beq_iff_eq.2 hin)) }
  rw [onEachDevice, get_bind_ok] at h
  have hloop : p.Edits rule q ∧ q.Legible ∧ J q := by
    refine forM_induction (I := fun r => p.Edits rule r ∧ r.Legible ∧ J r) h ⟨.refl, hp, start⟩
      fun device hdevice r s hI hround => ?_
    obtain ⟨hpr, hr, hJ⟩ := hI
    rw [get_bind_ok] at hround
    have hdevicer := (hpr.mem_devices hrule hp.sound).2 hdevice
    have hwalk := Program.mem_walk_of_mem_devices hdevicer
    have hlist : ∀ y ∈ r.findIn device name, y ∈ r.walkIn device ∧ (r.op y).is name = true :=
      fun y hy => List.mem_filter.1 hy
    -- What is still to be replaced is in the body, if no operation with the name is hidden.
    obtain ⟨hrs, hs, hJs, -⟩ := forM_prefix
      (I := fun done t => r.Edits rule t ∧ t.Legible ∧ J t ∧
        (p.HidesNone discardedNames [name] → ∀ y ∈ r.findIn device name, y ∉ done → y ∈ t.walk))
      (hr.sound.toWellFormed.nodup_findIn hwalk name) hround
      ⟨.refl, hr, hJ, fun _ y hy _ => hr.sound.toWellFormed.mem_walk_of_walkIn hwalk (hlist y hy).1⟩
      fun x hx done hfresh t u hI hrun => by
        obtain ⟨hrt, ht, hJt, hleft⟩ := hI
        obtain ⟨hbelow, his⟩ := hlist x hx
        have hlt := hr.sound.lt_size_of_walkIn hbelow
        have hev := hrt.evolves hr.sound
        have hdevicet := (hrt.mem_devices hrule hr.sound).2 hdevicer
        have hstays : ∀ y ∈ r.findIn device name, (t.op y).is name = true := fun y hy =>
          (hrt.is_eq hr.sound hname.changes (hr.sound.lt_size_of_walkIn (hlist y hy).1)).trans
            (hlist y hy).2
        obtain ⟨v, hv, rfl, hJu⟩ := step device x t u ht hJt (hpr.trans hrt) hdevicet
          (Nat.lt_of_lt_of_le hlt hev.size) (hstays x hx)
          (fun hmem => (hev.walkIn device (Program.mem_walk_of_mem_devices hdevicet) x hmem hlt).2
            ⟨hr.sound.created device hwalk, hbelow⟩)
          (fun hhides => hleft hhides x hx hfresh) hrun
        have hltt : x < t.slots.size := Nat.lt_of_lt_of_le hlt hev.size
        have hltv : x < v.slots.size := Nat.lt_of_lt_of_le hltt (hv.edits.size_le ht.sound)
        have hisv : (v.op x).is name = true :=
          (hv.edits.is_eq ht.sound hname.changes hltt).trans (hstays x hx)
        have hxname : (v.op x).name ∈ discardedNames := beq_iff_eq.1 hisv ▸ hmem
        refine ⟨hrt.trans (hv.edits.trans (.single (.erase x hltv (hname.erases v x hisv)))),
          hv.legible.erase hltv hxname, hJu, fun hhides y hy hyd => ?_⟩
        rw [List.mem_append, List.mem_singleton, not_or] at hyd
        have hyt := hleft hhides y hy hyd.1
        have hxv := hv.kept x (hleft hhides x hx hfresh)
        refine ((Program.cut_erase hv.legible.sound hltv).walk y).2
          ⟨hv.kept y hyt, hyd.2, fun hyx => ?_⟩
        have hhidesv := hhides.edits hkeeps hexposes hp.sound ((hpr.trans hrt).trans hv.edits)
        refine hhidesv x hxv hxname y hyx (List.mem_singleton.2 ?_)
        exact beq_iff_eq.1 ((hv.edits.is_eq ht.sound hname.changes
          (ht.sound.created y hyt)).trans (hstays y hy))
    exact ⟨hpr.trans hrs, hs, hJs⟩
  exact hloop.2

end Stage

end TileFlow
