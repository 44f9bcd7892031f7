import TileFlow.Proofs.Core.Device
import TileFlow.Proofs.Core.Function
import TileFlow.Proofs.Stage.Pipeline

/-!
# The lowering of cores

Every operation gets its name for the backend in place, and after that every function with a body
at the top gets a return where it has none.

The pipeline that lowers the cores of a program keeps the program of each of them: it becomes the
body of a function at the top whose operations, in their order and nesting, are those of the core
in terms of the backend.

## Main results

* `lowerName_edited`: the names.
* `terminate_ok`: the return of one function.
* `lowerNames_keeps`: what becomes of a function.
* `prepare_ok`: what the stages before the functions change.
* `finish_ok`: what the stages after the functions change.
* `unified_coreProgram`: the function of every core.
-/

/-! ## Names for the backend -/

namespace TileFlow

open TileFlow.Action

variable {p q : Program}

/-- Every name for the back end is of one dialect. -/
theorem prefix_of_mem_backendNames :
    ∀ e ∈ backendNames, ['l', 'l', 'v', 'm', '.'] <+: e.2.toList := by
  decide +kernel

/-- Every name of the backend is one of its dialect. -/
theorem prefix_of_backendName? {name lowered : String} (h : backendName? name = some lowered) :
    ['l', 'l', 'v', 'm', '.'] <+: lowered.toList := by
  rw [backendName?] at h
  split at h
  · rename_i source listed hfind
    cases h
    exact prefix_of_mem_backendNames _ (List.mem_of_find?_eq_some hfind)
  · split at h
    · cases h
      rw [String.toList_append]
      exact List.prefix_append _ _
    · split at h
      · rename_i hllvm
        cases h
        exact String.startsWith_string_iff.1 hllvm
      · cases h

/-- No name of the backend is the one of a terminator. -/
theorem not_isTerminator_of_backendName? {op : Operation} {name : String}
    (h : backendName? name = some op.name) : op.isTerminator = false := by
  have hprefix := prefix_of_backendName? h
  rw [Operation.isTerminator, Bool.or_eq_false_iff]
  refine ⟨beq_eq_false_iff_ne.2 ?_, beq_eq_false_iff_ne.2 ?_⟩
  · intro hname
    rw [hname] at hprefix
    revert hprefix
    decide
  · intro hname
    rw [hname] at hprefix
    revert hprefix
    decide

/-- Every operation of a program gets its name for the backend. -/
theorem lowerName_edited (hp : p.WellFormed)
    (h : runOn (p.walk.forM lowerName) p = (.ok (), q)) :
    let R := fun id (op : Operation) => ∃ name, backendName? (p.op id).name = some name ∧
      op = { p.op id with name }
    p.Edited p.walk R q ∧ ∀ id ∈ p.walk, R id (q.op id) := by
  refine forM_edited hp.distinct hp.created h fun id _ r s _ hop hstep => ?_
  rw [lowerName, get_bind_ok] at hstep
  obtain ⟨name, u, hfound, hstep⟩ := bind_ok.1 hstep
  obtain ⟨hname, rfl⟩ := orFail_ok.1 hfound
  exact ⟨({ · with name }), by simpa [eq_comm] using hstep, name, hop ▸ hname, rfl⟩

/-- Whether an operation at the top is a function that has no return at its end. -/
def Program.needsReturn (p : Program) (id : OpId) : Bool :=
  ((p.op id).is "llvm.func" && (p.op id).hasRegion) &&
    !((p.children (some id)).getLast?.any fun last => (p.op last).isReturn)

/-- A function gets a return when it needs one. -/
theorem terminate_ok {id : OpId} (h : runOn (terminate id) p = (.ok (), q)) :
    q = if p.needsReturn id then (p.append (some id) { name := "llvm.return" }).2 else p := by
  rw [terminate, get_bind_ok] at h
  dsimp only at h
  rw [Program.needsReturn]
  split at h
  · rename_i hfunc
    rw [hfunc, Bool.true_and]
    split at h
    · rename_i last hlast
      rw [hlast, Option.any_some]
      split at h
      · rename_i hreturn
        simpa [hreturn, eq_comm] using h
      · rename_i hreturn
        obtain ⟨_, u, happend, h⟩ := bind_ok.1 h
        simp only [runOn_append, Prod.mk.injEq] at happend
        simp only [runOn_pure, Prod.mk.injEq, true_and] at h
        simp [hreturn, ← h, ← happend.2]
    · rename_i hnone
      rw [hnone]
      obtain ⟨_, u, happend, h⟩ := bind_ok.1 h
      simp only [runOn_append, Prod.mk.injEq] at happend
      simp only [runOn_pure, Prod.mk.injEq, true_and] at h
      simp [← h, ← happend.2]
  · rename_i hfunc
    rw [Bool.eq_false_iff.2 hfunc, Bool.false_and]
    simpa [eq_comm] using h

/-! ### Returns -/

/-- A program in which some of the functions at the top may have got a return. -/
structure Program.Returning (p : Program) (done : List OpId) (q : Program) : Prop where
  wellFormed : q.WellFormed
  size : p.slots.size ≤ q.slots.size
  op : ∀ id ∈ p.walk, q.op id = p.op id
  walk : ∀ id ∈ q.walk, id ∈ p.walk ∨ q.op id = { name := "llvm.return" }
  pending : ∀ t ∈ p.body.trees, t.1 ∉ done → t ∈ q.body.trees
  finished : ∀ t ∈ p.body.trees, t.1 ∈ done →
    ((p.op t.1).is "llvm.func" && (p.op t.1).hasRegion) = true →
    ∃ T, (t.1, T) ∈ q.body.trees ∧ T.map q.op = (t.2.map p.op).terminated

/-- Before the first function nothing is to be checked. -/
theorem Program.Returning.start (hp : p.WellFormed) : p.Returning [] p where
  wellFormed := hp
  size := Nat.le_refl _
  op _ _ := rfl
  walk _ hid := .inl hid
  pending _ ht _ := ht
  finished _ _ hid := nomatch hid

/-- Whether the operations of a function end in a return is told by the operations below it. -/
theorem needsReturn_eq {f : OpId} {T : Forest OpId} (hT : p.below f = T) :
    p.needsReturn f = (((p.op f).is "llvm.func" && (p.op f).hasRegion) &&
      !((T.map p.op).roots.getLast?.any (·.isReturn))) := by
  rw [Program.needsReturn, Program.children, Program.block, hT, Forest.roots_map,
    List.getLast?_map, Option.any_map]

/-- An operation with a region that receives another one stays the same. -/
theorem op_append_of_hasRegion {f id : OpId} (hregion : (p.op f).hasRegion = true)
    (hid : id < p.slots.size) (op : Operation) : (p.append (some f) op).2.op id = p.op id := by
  by_cases hif : id = f
  · subst hif
    rw [Program.append, Program.op_insertAt_parent hid, ← hregion]
  · exact Program.op_congr (Program.slot_insertAt_some hif hid _ op)

section Step

variable {done : List OpId} {r s : Program} {f : OpId} {T : Forest OpId}

/-- The one tree of a function. -/
theorem eq_tree (hp : p.WellFormed) (hT : (f, T) ∈ p.body.trees) {t : OpId × Forest OpId}
    (ht : t ∈ p.body.trees) (htf : t.1 = f) : t = (f, T) := by
  obtain ⟨a, U⟩ := t
  subst htf
  rw [hp.distinct.eq_of_mem_trees ht hT]

/-- One more function has its return already, or needs none. -/
theorem Program.Returning.skip (h : p.Returning done r) (hp : p.WellFormed)
    (hT : (f, T) ∈ p.body.trees) (hfresh : f ∉ done)
    (hlast : ((p.op f).is "llvm.func" && (p.op f).hasRegion) = true →
      (T.map p.op).roots.getLast?.any (·.isReturn) = true) : p.Returning (done ++ [f]) r := by
  refine ⟨h.wellFormed, h.size, h.op, h.walk, fun t ht hdone => ?_, fun t ht hdone hfunc => ?_⟩
  · exact h.pending t ht fun hmem => hdone (List.mem_append_left _ hmem)
  · by_cases htf : t.1 = f
    · obtain rfl := eq_tree hp hT ht htf
      have hTr := h.pending _ hT hfresh
      refine ⟨T, hTr, ?_⟩
      rw [Forest.terminated, if_pos (hlast hfunc)]
      exact Forest.map_congr fun id hid => h.op id ((Forest.mem_preorder_of_mem_trees hT).2 id hid)
    · exact h.finished t ht (by simpa [htf] using hdone) hfunc

/-- One more function gets a return. -/
theorem Program.Returning.append (h : p.Returning done r) (hp : p.WellFormed)
    (hT : (f, T) ∈ p.body.trees) (hfresh : f ∉ done) (hregion : (p.op f).hasRegion = true)
    (hlast : (T.map p.op).roots.getLast?.any (·.isReturn) = false) :
    p.Returning (done ++ [f]) (r.append (some f) { name := "llvm.return" }).2 := by
  have hTr := h.pending _ hT hfresh
  have hbelow := Forest.below?_of_mem_trees h.wellFormed.distinct hTr
  have hfp : f ∈ p.walk := (Forest.mem_preorder_of_mem_trees hT).1
  have hfr : f ∈ r.walk := (Forest.mem_preorder_of_mem_trees hTr).1
  generalize hs : (r.append (some f) { name := "llvm.return" }).2 = s
  have hop : ∀ id, id < r.slots.size → s.op id = r.op id := fun id hid => by
    rw [← hs]
    exact op_append_of_hasRegion (by rw [h.op f hfp, hregion]) hid _
  have hwalk : ∀ id ∈ r.walk, s.op id = r.op id := fun id hid =>
    hop id (h.wellFormed.created id hid)
  have hbody : s.body = r.body.update f (·.insertAt T.roots.length r.slots.size .nil) := by
    rw [← hs, Program.append, Program.body_insertAt_some, Program.children, Program.block,
      Program.below_of_below? hbelow]
  have hkeep : ∀ t ∈ r.body.trees, t.1 ≠ f → t ∈ s.body.trees := fun t ht hne => by
    rw [hbody]
    exact Forest.mem_trees_update h.wellFormed.distinct ht (Ne.symm hne)
      (h.wellFormed.distinct.root_not_below ht (Forest.mem_roots.2 ⟨T, hTr⟩))
  have hnew : s.op r.slots.size = { name := "llvm.return" } := by
    rw [← hs, Program.op, Program.append,
      Program.slot_insertAt_some_new (Nat.ne_of_lt (h.wellFormed.created f hfr))]
    rfl
  refine ⟨?_, ?_, fun id hid => ?_, fun id hid => ?_, fun t ht hdone => ?_,
    fun t ht hdone hfunc => ?_⟩
  · rw [← hs]
    exact h.wellFormed.insertAt_some hfr _ _
  · rw [← hs, Program.append, Program.size_insertAt]
    exact Nat.le_succ_of_le h.size
  · rw [hop id (Nat.lt_of_lt_of_le (hp.created id hid) h.size), h.op id hid]
  · rw [← hs, Program.append, Program.mem_walk_insertAt_some h.wellFormed hfr] at hid
    rcases hid with rfl | hid
    · exact .inr hnew
    · rw [hwalk id hid]
      exact h.walk id hid
  · rw [List.mem_append, List.mem_singleton, not_or] at hdone
    exact hkeep t (h.pending t ht hdone.1) hdone.2
  · by_cases htf : t.1 = f
    · obtain rfl := eq_tree hp hT ht htf
      refine ⟨T ++ .single r.slots.size .nil, ?_, ?_⟩
      · rw [hbody, ← Forest.insertAt_length_roots]
        exact Forest.mem_trees_update_self h.wellFormed.distinct hTr
      · have hsame : T.map s.op = T.map p.op := by
          refine Forest.map_congr fun id hid => ?_
          rw [hwalk id ((Forest.mem_preorder_of_mem_trees hTr).2 id hid),
            h.op id ((Forest.mem_preorder_of_mem_trees hT).2 id hid)]
        rw [Forest.map_append, hsame, Forest.terminated, hlast, if_neg Bool.false_ne_true]
        simp only [Forest.single, Forest.map, hnew]
    · have hold : t.1 ∈ done := by simpa [htf] using hdone
      obtain ⟨U, hU, hUmap⟩ := h.finished t ht hold hfunc
      refine ⟨U, hkeep _ hU htf, ?_⟩
      rw [← hUmap]
      exact Forest.map_congr fun id hid => hwalk id ((Forest.mem_preorder_of_mem_trees hU).2 id hid)

/-- One more function may get its return. -/
theorem Program.Returning.step (h : p.Returning done r) (hp : p.WellFormed)
    (hf : f ∈ p.body.roots) (hfresh : f ∉ done) (hs : runOn (terminate f) r = (.ok (), s)) :
    p.Returning (done ++ [f]) s := by
  obtain ⟨T, hT⟩ := Forest.mem_roots.1 hf
  have hTr := h.pending _ hT hfresh
  have hops : T.map r.op = T.map p.op :=
    Forest.map_congr fun id hid => h.op id ((Forest.mem_preorder_of_mem_trees hT).2 id hid)
  have hneeds := needsReturn_eq (p := r)
    (Program.below_of_below? (Forest.below?_of_mem_trees h.wellFormed.distinct hTr))
  rw [hops, h.op f (Forest.mem_preorder_of_mem_trees hT).1] at hneeds
  rw [terminate_ok hs, hneeds]
  split
  · rename_i hn
    rw [Bool.and_eq_true, Bool.and_eq_true, Bool.not_eq_true'] at hn
    exact h.append hp hT hfresh hn.1.2 hn.2
  · rename_i hn
    refine h.skip hp hT hfresh fun hfunc => ?_
    rwa [hfunc, Bool.true_and, Bool.not_eq_true, Bool.not_eq_false'] at hn

end Step

/-- All functions get the returns that they need. -/
theorem terminate_returning (hp : p.WellFormed)
    (h : runOn (p.body.roots.forM terminate) p = (.ok (), q)) :
    p.Returning p.body.roots q := by
  refine forM_prefix hp.distinct.nodup_roots h (.start hp) ?_
  intro f hf done hfresh r s hr hstep
  exact hr.step hp hf hfresh hstep

/-- A function of a program with other names for its operations, and with a return at the end. -/
theorem lowerNames_keeps (hp : p.WellFormed) (h : runOn lowerNames p = (.ok (), q)) :
    ∃ rename : OpId → Operation,
      (∀ id ∈ p.walk, ∃ name, backendName? (p.op id).name = some name ∧
        rename id = { p.op id with name }) ∧
      q.WellFormed ∧ (∀ id ∈ q.walk, (q.op id).isTerminator = false) ∧
      ∀ t ∈ p.body.trees, ((rename t.1).is "llvm.func" && (rename t.1).hasRegion) = true →
        ∃ T, (t.1, T) ∈ q.body.trees ∧ q.op t.1 = rename t.1 ∧
          T.map q.op = (t.2.map rename).terminated := by
  rw [lowerNames, get_bind_ok, bind_ok] at h
  obtain ⟨_, r, hnames, h⟩ := h
  rw [get_bind_ok] at h
  obtain ⟨hedited, hnamed⟩ := lowerName_edited hp hnames
  have hreturn := terminate_returning (hedited.wellFormed hp) h
  have hwalk : r.walk = p.walk := by rw [Program.walk, hedited.body, Program.walk]
  refine ⟨r.op, hnamed, hreturn.wellFormed, fun id hid => ?_, fun t ht hfunc => ?_⟩
  · rcases hreturn.walk id hid with hid | hnew
    · obtain ⟨name, hname, hop⟩ := hnamed id (hwalk ▸ hid)
      have hlowered : backendName? (p.op id).name = some (q.op id).name := by
        rw [hreturn.op id hid, hop, hname]
      exact not_isTerminator_of_backendName? hlowered
    · rw [hnew]
      decide
  · rw [← hedited.body] at ht
    obtain ⟨T, hT, hmap⟩ := hreturn.finished t ht (Forest.mem_roots.2 ⟨t.2, ht⟩) hfunc
    exact ⟨T, hT, hreturn.op t.1 (Forest.mem_preorder_of_mem_trees ht).1, hmap⟩

end TileFlow

/-! ## The pipeline -/

namespace TileFlow

open TileFlow.Action

variable {p q r : Program}

/-! ### Before the functions -/

/-- The attributes that an operation may have when the cores are lowered. -/
def Prepared (op : Operation) (d : Dictionary) : Prop :=
  op.is "aie.use_lock" = false →
    (op.is "aie.buffer" = false → d = op.attributes) ∧
      d.get? "sym_name" = op.attributes.get? "sym_name"

/-- The stages before the lowering of the cores resolve the lock uses in them. -/
theorem prepare_ok (hp : p.WellFormed)
    (hlocks : runOn Stage.localizeLocks.action p = (.ok (), q))
    (hspaces : runOn Stage.normalizeAddressSpaces.action q = (.ok (), r)) :
    p.Annotated Prepared r ∧ ∀ device ∈ p.devices, ∀ core ∈ p.findIn device "aie.core",
      ∀ use ∈ p.findIn core "aie.use_lock", p.Resolved use r := by
  obtain ⟨hq, hresolved⟩ := localizeLocks_annotated hp hlocks
  have hr := dropMemorySpaces_annotated hspaces
  refine ⟨hq.trans hr fun op d e hd he hname => ?_, fun device hdevice core hcore use huse => ?_⟩
  · obtain rfl := hd hname
    exact ⟨he.1, he.2 _ (by decide)⟩
  · obtain ⟨n, hn, hattr⟩ := hresolved device hdevice core hcore use huse
    obtain ⟨d, hd, -, hspace⟩ := hr.op use
    refine ⟨n, hn, ?_⟩
    rw [← hattr, hd, Operation.intAttr?, Operation.attr?, hspace _ (by decide), Operation.intAttr?,
      Operation.attr?]

/-- Buffers have the same symbols when the cores are lowered. -/
theorem Program.Annotated.symbolName? (h : p.Annotated Prepared q) {id : OpId}
    (hname : (p.op id).is "aie.buffer" = true) :
    (q.op id).symbolName? = (p.op id).symbolName? := by
  obtain ⟨d, hd, hprep⟩ := h.op id
  have huse : (p.op id).is "aie.use_lock" = false := by
    rw [Operation.is, beq_iff_eq] at hname
    rw [Operation.is, hname]
    decide
  rw [hd, Operation.symbolName?, Operation.textAttr?, Operation.attr?, (hprep huse).2,
    Operation.symbolName?, Operation.textAttr?, Operation.attr?]

/-- Values stand for the same buffers when the cores are lowered. -/
theorem Program.Annotated.bufferSymbol? (h : p.Annotated Prepared q) (device : OpId) :
    q.bufferSymbol? device = p.bufferSymbol? device := by
  funext v
  rw [Program.bufferSymbol?, h.findIn, Program.bufferSymbol?]
  simp only [h.result]
  cases hfind : (p.findIn device "aie.buffer").find? fun id => (p.op id).result == some v with
  | none => rfl
  | some id => exact h.symbolName? (List.mem_filter.1 (List.mem_of_find?_eq_some hfind)).2

/-! ### After the functions -/

/-- The function of a tile is first a standard one. -/
theorem Tile.dialect_standardFunction (tile : Tile) : tile.standardFunction.dialect = "func" := by
  simp [Operation.dialect, standardFunction]

/-- The stages that clean up after the lowering of the cores keep functions, apart from what they
drop. -/
theorem cleanUp_ok {p₁ p₂ : Program} (hp : p.WellFormed) (hlive : ∀ id ∈ p.walk, p.isLive id = true)
    (hruntime : runOn Stage.dropRuntime.action p = (.ok (), p₁))
    (hunused : runOn Stage.dropUnused.action p₁ = (.ok (), p₂))
    (hmerge : runOn Stage.mergeEqual.action p₂ = (.ok (), q)) :
    q.WellFormed ∧ (∀ id, q.op id = p.op id) ∧ ∀ t ∈ p.body.trees,
      (p.op t.1).isDefinition = true → (p.op t.1).isDropped = false →
      (t.1, t.2.prune fun id => (p.op id).isDropped) ∈ q.body.trees := by
  have h₁ := dropRuntime_pruned hp hlive hruntime
  obtain ⟨r, h₂, h₃⟩ := dropUnused_keeps (h₁.wellFormed hp) h₁.allLive hunused
  have hq := h₃.trans (mergeEqual_keeps h₃.wellFormed hmerge)
    fun _ => Operation.hasRegion_of_isDefinition
  have hop : ∀ id, q.op id = p.op id := fun id => by rw [hq.op, h₂.op, h₁.op]
  refine ⟨hq.wellFormed, hop, fun t ht hdefinition hkept => ?_⟩
  rw [Operation.isDropped, Bool.or_eq_false_iff] at hkept
  have hcode : (t.2.prune fun id => (p.op id).isDropped) =
      (t.2.prune fun id => (p.op id).dialect == "aiex").prune
        fun id => (p₁.op id).isTerminator := by
    rw [Forest.prune_prune]
    exact Forest.prune_congr fun id _ => by rw [h₁.op, Operation.isDropped]
  have htree₁ : (t.1, t.2.prune fun id => (p.op id).dialect == "aiex") ∈ p₁.body.trees := by
    rw [h₁.body, Forest.trees_prune]
    exact List.mem_map.2 ⟨t, List.mem_filter.2 ⟨ht, by simp [hkept.1]⟩, rfl⟩
  have htree₂ : (t.1, t.2.prune fun id => (p.op id).isDropped) ∈ r.body.trees := by
    rw [h₂.body, Forest.trees_prune, hcode]
    exact List.mem_map.2 ⟨_, List.mem_filter.2 ⟨htree₁, by simp [h₁.op, hkept.2]⟩, rfl⟩
  exact hq.trees _ htree₂ (by rw [h₂.op, h₁.op]; exact hdefinition)

/-- The stages after the lowering of the cores keep functions, apart from what they drop, and give
every operation its name for the backend. -/
theorem finish_ok (hp : p.WellFormed) (hlive : ∀ id ∈ p.walk, p.isLive id = true)
    (h : Pipeline.runStages [.dropRuntime, .dropUnused, .mergeEqual, .lowerNames, .dropUnused,
      .mergeEqual] p = (.ok (), q))
    {tile : Tile} {function : OpId} {code : Forest OpId}
    (htree : (function, code) ∈ p.body.trees) (hop : p.op function = tile.standardFunction) :
    ∃ (rename : OpId → Operation) (code' : Forest OpId),
      (∀ id ∈ (code.prune fun id => (p.op id).isDropped).preorder, ∃ name,
        backendName? (p.op id).name = some name ∧ rename id = { p.op id with name }) ∧
      q.WellFormed ∧ (function, code') ∈ q.body.trees ∧ q.op function = tile.coreFunction ∧
      code'.map q.op =
        ((code.prune fun id => (p.op id).isDropped).map rename).terminated := by
  simp only [Pipeline.runStages_cons_ok] at h
  obtain ⟨p₁, hruntime, p₂, hunused, p₃, hmerge, p₄, hnames, p₅, hunused', p₆, hmerge', hend⟩ := h
  obtain rfl : p₆ = q := by simpa [Pipeline.runStages] using hend
  obtain ⟨hwf₃, hop₃, htrees₃⟩ := cleanUp_ok hp hlive hruntime hunused hmerge
  have htree₃ : (function, code.prune fun id => (p.op id).isDropped) ∈ p₃.body.trees := by
    refine htrees₃ _ htree ?_ ?_
    · rw [hop]
      rfl
    · rw [hop, Operation.isDropped, Tile.dialect_standardFunction]
      rfl
  obtain ⟨rename, hrename, hwf₄, hnone, hfunctions⟩ := lowerNames_keeps hwf₃ hnames
  have hunused₄ := dropUnused_keeps_of_none hwf₄ hnone hunused'
  have hq := hunused₄.trans (mergeEqual_keeps hunused₄.wellFormed hmerge')
    fun _ => Operation.hasRegion_of_isDefinition
  obtain ⟨hfwalk, hwalk⟩ := Forest.mem_preorder_of_mem_trees htree₃
  have hfunction : rename function = tile.coreFunction := by
    obtain ⟨name, hname, hre⟩ := hrename function hfwalk
    rw [hop₃, hop] at hname hre
    cases hname
    exact hre
  obtain ⟨code', htree₄, hop₄, hmap⟩ := hfunctions _ htree₃ (by rw [hfunction]; rfl)
  refine ⟨rename, code', fun id hid => ?_, hq.wellFormed, hq.trees _ htree₄ ?_, ?_, ?_⟩
  · obtain ⟨name, hname, hre⟩ := hrename id (hwalk id hid)
    rw [hop₃] at hname hre
    exact ⟨name, hname, hre⟩
  · rw [hop₄, hfunction]
    rfl
  · rw [hq.op, hop₄, hfunction]
  · rw [← hmap]
    exact Forest.map_congr fun id _ => hq.op id

/-! ### The whole pipeline -/

/-- An operation is dropped after the lowering of the cores when it is dropped before. -/
theorem StandardForm.isDropped {intrinsics : String × String} {symbol? : String → Option String}
    {op op' : Operation} (h : StandardForm intrinsics symbol? op op') :
    op'.isDropped = op.isDropped := by
  rw [StandardForm] at h
  split at h
  · rename_i huse
    obtain ⟨intrinsic, n, -, -, rfl⟩ := h
    rw [Operation.is, beq_iff_eq] at huse
    simp [Operation.isDropped, Operation.dialect, Operation.isTerminator, Operation.is, huse]
  · subst h
    rfl

/-- What becomes of an operation of a core that is prepared, lowered and renamed. -/
theorem coreOperation?_eq {device id : OpId} {name : String} {lowered : Operation}
    (hq : p.Annotated Prepared q)
    (hresolved : (p.op id).is "aie.use_lock" = true → p.Resolved id q)
    (hform : StandardForm (q.modelOf device).lockIntrinsics (q.bufferSymbol? device) (q.op id)
      lowered)
    (hname : backendName? lowered.name = some name) :
    p.coreOperation? device (p.op id) = some { lowered with name } := by
  obtain ⟨d, hd, hprep⟩ := hq.op id
  rw [StandardForm, hq.is, hq.modelOf, hq.bufferSymbol?] at hform
  rw [Program.coreOperation?]
  split at hform
  · rename_i huse
    obtain ⟨intrinsic, n, hintrinsic, hid, rfl⟩ := hform
    obtain ⟨m, hm, hattr⟩ := hresolved huse
    obtain rfl := hid m hattr
    obtain rfl : "llvm.call" = name := Option.some.inj hname
    rw [hd] at hintrinsic
    rw [if_pos huse, Program.lockCall?, hm]
    have : lockIntrinsic? (p.modelOf device).lockIntrinsics
        (((p.op id).operandText? 1).getD "acquire") = some intrinsic := hintrinsic
    rw [this, hd]
    rfl
  · rename_i huse
    subst hform
    have hbuffer : (p.op id).is "aie.buffer" = false := by
      rw [Operation.is, beq_eq_false_iff_ne]
      intro hbuffer
      rw [hq.name, hbuffer, backendName?_eq_none "aie.buffer" (by simp)] at hname
      cases hname
    obtain rfl := (hprep (Bool.eq_false_iff.2 huse)).1 hbuffer
    rw [if_neg huse, ← hq.name, hname, hd]
    rfl

/-- The pipeline keeps the program of every core: on success, there is a function for it at the top
whose body is what the core says. -/
theorem unified_coreProgram (hp : p.WellFormed) (hlive : ∀ id ∈ p.walk, p.isLive id = true)
    (hvalues : p.definedValues.Nodup)
    (hflat : ∀ core ∈ p.findAll "aie.core", p.findIn core "aie.core" = [])
    (h : Pipeline.unified.run p = (.ok (), q)) {device core : OpId} (hdevice : device ∈ p.devices)
    (hcore : core ∈ p.findIn device "aie.core") :
    ∃ tile body function, p.owningTile? core = some tile ∧
      p.coreProgram? device core = some body ∧ function ∈ q.body.roots ∧
      q.op function = tile.coreFunction ∧ (q.below function).map q.op = body := by
  rw [Pipeline.run, Pipeline.unified, Pipeline.runStages_cons_ok] at h
  obtain ⟨p₁, hlocks, h⟩ := h
  rw [Pipeline.runStages_cons_ok] at h
  obtain ⟨p₂, hspaces, h⟩ := h
  rw [Pipeline.runStages_cons_ok] at h
  obtain ⟨p₃, hcores, h⟩ := h
  obtain ⟨hprep, hresolved⟩ := prepare_ok hp hlocks hspaces
  obtain ⟨hwf, hlive₃, hout⟩ := lowerCores_outlines (hprep.wellFormed hp)
    (fun id hid => by rw [hprep.live, hlive id (hprep.walk ▸ hid)])
    (hprep.definedValues ▸ hvalues) (by simpa only [hprep.findAll, hprep.findIn] using hflat) hcores
  obtain ⟨tile, function, htile, -, htree, hop, hform⟩ :=
    hout device (hprep.devices ▸ hdevice) core (hprep.findIn device _ ▸ hcore)
  rw [hprep.owningTile?] at htile
  rw [hprep.below] at htree hform
  obtain ⟨rename, code, hrename, hwfq, htreeq, hopq, hmap⟩ := finish_ok hwf hlive₃ h htree hop
  have hdropped : ((p.below core).prune fun id => (p₃.op id).isDropped) =
      (p.below core).prune fun id => (p.op id).isDropped := by
    refine Forest.prune_congr fun id hid => ?_
    rw [(hform id hid).isDropped, Operation.isDropped, Operation.isTerminator, Operation.dialect,
      hprep.is, hprep.is, hprep.name]
    rfl
  rw [hdropped] at hrename hmap
  refine ⟨tile, code.map q.op, function, htile, ?_, Forest.mem_roots.2 ⟨_, htreeq⟩, hopq, ?_⟩
  · rw [Program.coreProgram?, Forest.lowered?_map (h := rename), Option.map_some, hmap]
    intro id hid
    obtain ⟨name, hname, hre⟩ := hrename id hid
    obtain ⟨hidcore, -⟩ := Forest.mem_preorder_of_prune hid
    rw [hre]
    refine coreOperation?_eq hprep (fun huse => ?_) (hform id hidcore) hname
    exact hresolved device hdevice core hcore id (List.mem_filter.2 ⟨hidcore, huse⟩)
  · rw [Program.below_of_below? (Forest.below?_of_mem_trees hwfq.distinct htreeq)]

/-- A device with a core that uses a lock and a buffer in a loop. -/
def loopDevice (amount : Attribute) : Forest Operation :=
  .single { name := "aie.device", operands := [.ident "ipu"], hasRegion := true } <|
    .cons { name := "aie.tile", result := some "t", operands := [.int 0, .int 2] } .nil <|
    .cons { name := "aie.lock", result := some "l", operands := [.value "t", .int 3] } .nil <|
    .cons { name := "aie.buffer", result := some "b", operands := [.value "t"] } .nil <|
    .single { name := "aie.core", operands := [.value "t"], hasRegion := true } <|
      .cons { name := "cf.loop", hasRegion := true }
        (.cons { name := "aie.use_lock", operands := [.value "l", .ident "acquire", amount] }
          .nil <|
          .cons { name := "memref.load", result := some "x", operands := [.value "b"] } .nil <|
          .single { name := "scf.yield" } .nil) <|
      .single { name := "aie.end" } .nil

/-- The core of the loop becomes a function. -/
theorem unified_coreProgram_loopDevice :
    ∃ q, Pipeline.unified.run (.ofForest .empty (loopDevice (.int 1))) = (.ok (), q) ∧
      ∃ tile body function,
        (Program.ofForest .empty (loopDevice (.int 1))).owningTile? 4 = some tile ∧
        (Program.ofForest .empty (loopDevice (.int 1))).coreProgram? 0 4 = some body ∧
        function ∈ q.body.roots ∧ q.op function = tile.coreFunction ∧
        (q.below function).map q.op = body := by
  have hok : (Pipeline.unified.run (.ofForest .empty (loopDevice (.int 1)))).1.isOk = true := by
    decide +kernel
  rcases h : Pipeline.unified.run (.ofForest .empty (loopDevice (.int 1))) with ⟨e | ⟨⟩, q⟩
  · rw [h] at hok
    cases hok
  · exact ⟨q, rfl, unified_coreProgram (Program.wellFormed_ofForest _ _) (by decide +kernel)
      (by decide +kernel) (by decide +kernel) h (by decide +kernel) (by decide +kernel)⟩

/-- A device that is not at the top is dropped with its cores, and what a lock use gives after its
action is read as zero when it is no integer. -/
theorem unified_loses :
    (∃ p q core device, p = Program.ofForest .empty
        (.single { name := "aiex.part", hasRegion := true } (loopDevice (.int 1))) ∧
      p.definedValues.Nodup ∧ (p.op device).is "aie.device" = true ∧
      core ∈ p.findIn device "aie.core" ∧ p.findAll "aie.core" = [core] ∧
      Pipeline.unified.run p = (.ok (), q) ∧ q.walk = []) ∧
    ∃ p q use core, p = Program.ofForest .empty (loopDevice (.ident "foo")) ∧
      p.definedValues.Nodup ∧ p.findAll "aie.core" = [core] ∧
      use ∈ p.findIn core "aie.use_lock" ∧ (p.op use).operands[2]? = some (.ident "foo") ∧
      Pipeline.unified.run p = (.ok (), q) ∧
      ∀ id ∈ q.walk, (q.op id).operands[2]? ≠ some (.ident "foo") := by
  constructor
  · have hok : (Pipeline.unified.run (.ofForest .empty
        (.single { name := "aiex.part", hasRegion := true } (loopDevice (.int 1))))).1.isOk = true ∧
        (Pipeline.unified.run (.ofForest .empty (.single
          { name := "aiex.part", hasRegion := true } (loopDevice (.int 1))))).2.walk = [] := by
      decide +kernel
    rcases h : Pipeline.unified.run (.ofForest .empty
      (.single { name := "aiex.part", hasRegion := true } (loopDevice (.int 1)))) with ⟨e | ⟨⟩, q⟩
    · rw [h] at hok
      cases hok.1
    · rw [h] at hok
      exact ⟨_, q, 5, 1, rfl, by decide +kernel, by decide +kernel, by decide +kernel,
        by decide +kernel, h, hok.2⟩
  · have hok : (Pipeline.unified.run (.ofForest .empty (loopDevice (.ident "foo")))).1.isOk = true ∧
        ∀ id ∈ (Pipeline.unified.run (.ofForest .empty (loopDevice (.ident "foo")))).2.walk,
          ((Pipeline.unified.run (.ofForest .empty (loopDevice (.ident "foo")))).2.op
            id).operands[2]? ≠ some (.ident "foo") := by
      decide +kernel
    rcases h : Pipeline.unified.run (.ofForest .empty (loopDevice (.ident "foo"))) with ⟨e | ⟨⟩, q⟩
    · rw [h] at hok
      cases hok.1
    · rw [h] at hok
      exact ⟨_, q, 6, 4, rfl, by decide +kernel, by decide +kernel, by decide +kernel,
        by decide +kernel, h, hok.2⟩

end TileFlow
