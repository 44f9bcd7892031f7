import Mathlib.Data.List.Forall2
import TileFlow.Proofs.Program.Sound
import TileFlow.Proofs.Source.Language
import TileFlow.Proofs.Stage.Action
import TileFlow.Stage.Pipeline

/-!
# Runs of pipelines

A pipeline succeeds when each of its stages does, and fails with the error of the first stage that
does not. It starts from a program that the parser made.

## Main results

* `Pipeline.runStages_cons_ok`, `Pipeline.runStages_cons_error`: the first stage and the others.
* `Pipeline.exists_stage_of_error`: the stage that gave up.
* `Source.parse_ok`: the programs that the parser makes.
* `canonicalizeSource_ok`: the canonical program of a source.
-/

namespace TileFlow

open TileFlow.Action

variable {p q : Program}

/-- A stage succeeds when its action does. -/
theorem Stage.run_eq_ok_iff {stage : Stage} :
    stage.run p = (.ok (), q) ↔ runOn stage.action p = (.ok (), q) := by
  rw [run]
  rcases runOn stage.action p with ⟨e | ⟨⟩, r⟩
  · constructor <;> exact fun h => nomatch h
  · simp [Except.mapError]

/-- A pipeline succeeds when each of its stages does. -/
theorem Pipeline.runStages_cons_ok {stage : Stage} {stages : List Stage} :
    runStages (stage :: stages) p = (.ok (), q) ↔
      ∃ r, runOn stage.action p = (.ok (), r) ∧ runStages stages r = (.ok (), q) := by
  rw [runStages, Stage.run]
  rcases runOn stage.action p with ⟨e | ⟨⟩, r⟩
  · constructor
    · intro h
      cases h
    · rintro ⟨_, h, -⟩
      cases h
  · constructor
    · intro h
      exact ⟨r, rfl, h⟩
    · rintro ⟨_, h, hrest⟩
      cases h
      exact hrest

/-- A pipeline fails when its first stage does, or the others after it. -/
theorem Pipeline.runStages_cons_error {stage : Stage} {stages : List Stage} {e : CompileError} :
    runStages (stage :: stages) p = (.error e, q) ↔
      (∃ cause, runOn stage.action p = (.error cause, q) ∧ e = .stageFailed stage.name cause) ∨
        ∃ r, runOn stage.action p = (.ok (), r) ∧ runStages stages r = (.error e, q) := by
  rw [runStages, Stage.run]
  rcases runOn stage.action p with ⟨cause | ⟨⟩, r⟩
  · constructor
    · intro h
      cases h
      exact .inl ⟨cause, rfl, rfl⟩
    · rintro (⟨_, h, rfl⟩ | ⟨_, h, -⟩) <;> cases h
      rfl
  · constructor
    · intro h
      exact .inr ⟨r, rfl, h⟩
    · rintro (⟨_, h, -⟩ | ⟨_, h, hrest⟩) <;> cases h
      exact hrest

/-- A pipeline runs its first stages and then the others. -/
theorem Pipeline.runStages_append_ok {stages rest : List Stage} :
    runStages (stages ++ rest) p = (.ok (), q) ↔
      ∃ r, runStages stages p = (.ok (), r) ∧ runStages rest r = (.ok (), q) := by
  induction stages generalizing p with
  | nil => simp [runStages]
  | cons stage stages ih =>
      rw [List.cons_append, runStages_cons_ok]
      simp only [ih, runStages_cons_ok]
      exact ⟨fun ⟨r, h, s, hs, hrest⟩ => ⟨s, ⟨r, h, hs⟩, hrest⟩,
        fun ⟨s, ⟨r, h, hs⟩, hrest⟩ => ⟨r, h, s, hs, hrest⟩⟩

/-- A pipeline that fails does so in one of its first stages, or in the others. -/
theorem Pipeline.runStages_append_error {stages rest : List Stage} {e : CompileError} :
    runStages (stages ++ rest) p = (.error e, q) ↔ runStages stages p = (.error e, q) ∨
      ∃ r, runStages stages p = (.ok (), r) ∧ runStages rest r = (.error e, q) := by
  induction stages generalizing p with
  | nil => simp [runStages]
  | cons stage stages ih =>
      rw [List.cons_append, runStages_cons_error, runStages_cons_error]
      simp only [ih, runStages_cons_ok]
      constructor
      · rintro (h | ⟨r, h, hs | ⟨s, hs, hrest⟩⟩)
        · exact .inl (.inl h)
        · exact .inl (.inr ⟨r, h, hs⟩)
        · exact .inr ⟨s, ⟨r, h, hs⟩, hrest⟩
      · rintro ((h | ⟨r, h, hs⟩) | ⟨s, ⟨r, h, hs⟩, hrest⟩)
        · exact .inl h
        · exact .inr ⟨r, h, .inl hs⟩
        · exact .inr ⟨r, h, .inr ⟨s, hs, hrest⟩⟩

/-- The error of a pipeline tells a stage of it. -/
theorem Pipeline.exists_stage_of_error {stages : List Stage} {e : CompileError}
    (h : runStages stages p = (.error e, q)) :
    ∃ stage ∈ stages, ∃ cause, e = .stageFailed stage.name cause := by
  induction stages generalizing p with
  | nil => cases h
  | cons stage stages ih =>
      rcases runStages_cons_error.1 h with ⟨cause, -, rfl⟩ | ⟨r, -, h⟩
      · exact ⟨stage, List.mem_cons_self, cause, rfl⟩
      · obtain ⟨stage', hmem, hcause⟩ := ih h
        exact ⟨stage', List.mem_cons_of_mem _ hmem, hcause⟩

/-- The body of a program that the parser made has the operations of statements that follow the
definitions of what they use. -/
theorem Source.exists_statements {source : String} (h : Source.parse source = .ok p) :
    ∃ (attributes : Dictionary) (statements : Forest Statement),
      WellScoped [] statements.preorder ∧
        p = Program.ofForest attributes (statements.map Statement.operation) := by
  obtain ⟨ts, hts⟩ := tokenize_of_parse h
  obtain ⟨attributes, ops, htokens, rfl⟩ := (parse_eq_ok_iff hts).1 h
  obtain ⟨bindings, statements, -, hscope, -, rfl⟩ := parseTokens_sound htokens
  exact ⟨attributes, statements, hscope, rfl⟩

/-- The values of a program are the results of its contents, in order. -/
theorem Program.definedValues_eq_contents (p : Program) :
    p.definedValues = p.contents.preorder.filterMap (·.result) := by
  rw [contents, Forest.preorder_map, List.filterMap_map]
  rfl

/-- The operations of the program of a forest are those of the forest. -/
theorem Program.op_mem_preorder_ofForest {attributes : Dictionary} {ops : Forest Operation}
    {id : OpId} (h : id ∈ (ofForest attributes ops).walk) :
    (ofForest attributes ops).op id ∈ ops.preorder := by
  have hmem : (ofForest attributes ops).op id ∈ (ofForest attributes ops).contents.preorder := by
    rw [contents, Forest.preorder_map]
    exact List.mem_map_of_mem h
  rwa [contents_ofForest] at hmem

/-- A program that the parser made is sound, without trees set aside, and no value of it is defined
twice. -/
theorem Source.parse_ok {source : String} (h : Source.parse source = .ok p) :
    p.Sound ∧ p.definedValues.Nodup ∧ p.detached = [] := by
  obtain ⟨attributes, statements, hscope, rfl⟩ := exists_statements h
  refine ⟨Program.sound_ofForest _ _, ?_, rfl⟩
  rw [Program.definedValues_eq_contents, Program.contents_ofForest, Forest.preorder_map,
    List.filterMap_map]
  exact (wellScoped_nil_iff.1 hscope).1

/-- Every operation of a program that the parser made is in its body. -/
theorem Source.mem_walk_of_parse {source : String} (h : Source.parse source = .ok p) {id : OpId}
    (hid : id < p.slots.size) : id ∈ p.walk := by
  obtain ⟨attributes, statements, -, rfl⟩ := exists_statements h
  rw [Program.walk, Program.ofForest, Forest.preorder_number, List.mem_range'_1]
  simpa [Program.ofForest] using hid

/-- Whatever a program that the parser made uses as an operand, it defines. -/
theorem Source.mem_definedValues_of_parse {source : String} (h : Source.parse source = .ok p)
    {id : OpId} (hid : id < p.slots.size) {v : String} (hv : .value v ∈ (p.op id).operands) :
    v ∈ p.definedValues := by
  have hmem := mem_walk_of_parse h hid
  obtain ⟨attributes, statements, hscope, rfl⟩ := exists_statements h
  have hop := Program.op_mem_preorder_ofForest hmem
  rw [Forest.preorder_map] at hop
  obtain ⟨s, hs, hop⟩ := List.mem_map.1 hop
  obtain ⟨i, hi⟩ := List.mem_iff_getElem?.1 hs
  rw [← hop] at hv
  obtain ⟨j, d, -, hj, hresult⟩ := (wellScoped_nil_iff.1 hscope).2 i s hi v hv
  rw [Program.definedValues_eq_contents, Program.contents_ofForest, Forest.preorder_map,
    List.filterMap_map]
  exact List.mem_filterMap.2 ⟨d, List.mem_of_getElem? hj, hresult⟩

/-- A canonical program is what the pipeline makes of a program that the parser made. -/
theorem canonicalizeSource_ok {source : String} (h : canonicalizeSource source = .ok q) :
    ∃ p, Source.parse source = .ok p ∧ Pipeline.canonicalize.run p = (.ok (), q) := by
  rw [canonicalizeSource] at h
  split at h
  · cases h
  · rename_i p hp
    refine ⟨p, hp, ?_⟩
    split at h
    · rename_i hrun
      cases h
      exact hrun
    · cases h

/-- A stage that fails does so in the pipeline. -/
theorem canonicalizeSource_error {source : String} {stage : String} {cause : StageError}
    (h : canonicalizeSource source = .error (.stageFailed stage cause)) :
    ∃ p q, Source.parse source = .ok p ∧
      Pipeline.canonicalize.run p = (.error (.stageFailed stage cause), q) := by
  rw [canonicalizeSource] at h
  split at h
  · rename_i e he
    -- The parser fails with its own errors.
    rw [Except.error.injEq] at h
    subst h
    rw [Source.parse, Source.parseContents] at he
    split at he
    · cases he
    · split at he <;> cases he
  · rename_i p hp
    split at h
    · cases h
    · rename_i e q hrun
      cases h
      exact ⟨p, q, hp, hrun⟩

/-- A computation and what depends on its result succeed when both do. -/
theorem Except.bind_ok_iff {ε α β : Type} {x : Except ε α} {f : α → Except ε β} {b : β} :
    (x >>= f) = .ok b ↔ ∃ a, x = .ok a ∧ f a = .ok b := by
  cases x <;> simp [bind, Except.bind]

/-- Results for all elements of a list are there when each element has one. -/
theorem Except.mapM_ok_iff {ε α β : Type} {f : α → Except ε β} {as : List α} {bs : List β} :
    as.mapM f = .ok bs ↔ List.Forall₂ (fun a b => f a = .ok b) as bs := by
  induction as generalizing bs with
  | nil =>
      rw [List.mapM_nil, List.forall₂_nil_left_iff]
      constructor
      · rintro ⟨⟩
        rfl
      · rintro rfl
        rfl
  | cons a as ih =>
      simp only [List.mapM_cons, bind_ok_iff, ih, List.forall₂_cons_left_iff]
      constructor
      · rintro ⟨b, hb, bs', hbs, h⟩
        cases h
        exact ⟨b, bs', hb, hbs, rfl⟩
      · rintro ⟨b, bs', hb, hbs, rfl⟩
        exact ⟨b, hb, bs', hbs, rfl⟩

/-- Each result for a list is the result for one of its elements. -/
theorem Except.exists_of_mem_mapM {ε α β : Type} {f : α → Except ε β} {as : List α} {bs : List β}
    {b : β} (h : as.mapM f = .ok bs) (hb : b ∈ bs) : ∃ a ∈ as, f a = .ok b := by
  induction mapM_ok_iff.1 h with
  | nil => exact absurd hb List.not_mem_nil
  | @cons a _ _ _ hab hrest ih =>
      rcases List.mem_cons.1 hb with rfl | hb
      · exact ⟨a, List.mem_cons_self, hab⟩
      · obtain ⟨a', ha', hf⟩ := ih (mapM_ok_iff.2 hrest) hb
        exact ⟨a', List.mem_cons_of_mem _ ha', hf⟩

/-- There are results for a list if there is one for each of its elements. -/
theorem Except.exists_mapM_ok {ε α β : Type} {f : α → Except ε β} {as : List α}
    (h : ∀ a ∈ as, ∃ b, f a = .ok b) : ∃ bs, as.mapM f = .ok bs := by
  induction as with
  | nil => exact ⟨[], rfl⟩
  | cons a rest ih =>
      obtain ⟨b, hb⟩ := h a List.mem_cons_self
      obtain ⟨bs, hbs⟩ := ih fun c hc => h c (List.mem_cons_of_mem _ hc)
      exact ⟨b :: bs, mapM_ok_iff.2 (.cons hb (mapM_ok_iff.1 hbs))⟩

/-- What is decided to be true of a result is true of one that there is. -/
theorem exists_ok_of_any {ε α : Type} {x : Except ε α} {P : α → Prop} [DecidablePred P]
    (h : x.toOption.any (fun a => decide (P a)) = true) : ∃ a, x = .ok a ∧ P a := by
  rcases x with e | a
  · cases h
  · exact ⟨a, rfl, of_decide_eq_true h⟩

/-- A run whose result tells that it succeeds does so, with the program that it leaves. -/
theorem eq_ok_of_toOption {ε : Type} {run : Except ε Unit × Program}
    (h : run.1.toOption = some ()) : run = (.ok (), run.2) := by
  rcases run with ⟨e | ⟨⟩, q⟩
  · exact nomatch h
  · rfl

/-- A stage that succeeds leaves the program that its run ends in. -/
theorem Stage.run_eq_ok {stage : Stage} (h : (stage.run p).1.toOption = some ()) :
    stage.run p = (.ok (), (stage.run p).2) :=
  eq_ok_of_toOption h

/-- A pipeline that succeeds leaves the program that its run ends in. -/
theorem Pipeline.run_eq_ok {l : Pipeline} (h : (l.run p).1.toOption = some ()) :
    l.run p = (.ok (), (l.run p).2) :=
  eq_ok_of_toOption h

end TileFlow
