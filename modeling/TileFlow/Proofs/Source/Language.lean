import TileFlow.Proofs.Forest
import TileFlow.Proofs.Source.Completeness

/-!
# The language of programs

The parser accepts a token list exactly when it derives from the grammar, no value is defined
twice and every value is defined before it is used; the program it then makes is the one that the
derivation describes.

## Main results

* `wellScoped_iff`: the conditions on values, checked statement by statement.
* `Program.isArenaOf_iff`: a derivation describes one program.
* `parseTokens_sound`, `parseTokens_complete`: the token lists that are accepted.
* `parseTokens_wellScoped`: no token list that is accepted breaks the conditions on values.
* `parse_eq_ok_iff_derives`: the sources that are accepted, and their programs.
-/

namespace TileFlow

namespace Source

/-! ### The conditions on values -/

/-- An operation adds its result to the defined values. -/
theorem mem_define {op : Operation} {defined : List String} {v : String} :
    v ∈ define op defined ↔ op.result = some v ∨ v ∈ defined := by
  cases h : op.result with
  | none => simp [define, h]
  | some r => simp [define, h, eq_comm]

/-- The uses of a list of statements, where some values are defined before it. -/
def UsesDefined (defined : List String) (l : List Statement) : Prop :=
  ∀ (i : Nat) (s : Statement), l[i]? = some s → ∀ v, .value v ∈ s.operands →
    v ∈ defined ∨ ∃ (j : Nat) (d : Statement), j < i ∧ l[j]? = some d ∧ d.result = some v

/-- Of a list of statements, the first uses what is defined and the others what is defined after it.
-/
theorem usesDefined_cons {defined : List String} {s : Statement} {l : List Statement} :
    UsesDefined defined (s :: l) ↔
      (∀ v, .value v ∈ s.operands → v ∈ defined) ∧ UsesDefined (define s.operation defined) l := by
  constructor
  · intro h
    refine ⟨fun v hv => ?_, fun i t ht v hv => ?_⟩
    · rcases h 0 s rfl v hv with hmem | ⟨j, d, hj, -⟩
      · exact hmem
      · exact absurd hj (Nat.not_lt_zero j)
    · rcases h (i + 1) t ht v hv with hmem | ⟨j, d, hj, hd, hr⟩
      · exact .inl (mem_define.2 (.inr hmem))
      · cases j with
        | zero =>
            obtain rfl : s = d := by simpa using hd
            exact .inl (mem_define.2 (.inl hr))
        | succ j => exact .inr ⟨j, d, by omega, hd, hr⟩
  · rintro ⟨hs, hl⟩ i t ht v hv
    cases i with
    | zero =>
        obtain rfl : s = t := by simpa using ht
        exact .inl (hs v hv)
    | succ i =>
        rcases hl i t ht v hv with hmem | ⟨j, d, hj, hd, hr⟩
        · rcases mem_define.1 hmem with hr | hmem
          · exact .inr ⟨0, s, by omega, rfl, hr⟩
          · exact .inl hmem
        · exact .inr ⟨j + 1, d, by omega, hd, hr⟩

/-- The conditions on values are those that the parser checks statement by statement. -/
theorem wellScoped_iff {defined : List String} {l : List Statement} :
    WellScoped defined l ↔
      (l.filterMap (·.result)).Nodup ∧ (∀ v ∈ l.filterMap (·.result), v ∉ defined) ∧
        UsesDefined defined l := by
  induction l generalizing defined with
  | nil => simp [WellScoped, UsesDefined]
  | cons s l ih =>
      have hdefine : ∀ v, v ∈ define s.operation defined ↔ s.result = some v ∨ v ∈ defined :=
        fun v => mem_define
      rw [WellScoped, usesDefined_cons, ih]
      cases hr : s.result with
      | none =>
          simp only [List.filterMap_cons, hr]
          simp only [hdefine, hr, reduceCtorEq, false_or]
          constructor
          · rintro ⟨hs, hnodup, hfresh, huses⟩
            exact ⟨hnodup, hfresh, hs.uses, huses⟩
          · rintro ⟨hnodup, hfresh, hs, huses⟩
            exact ⟨⟨hs, by simp [hr]⟩, hnodup, hfresh, huses⟩
      | some r =>
          simp only [List.filterMap_cons, hr, List.nodup_cons, List.mem_cons, forall_eq_or_imp]
          simp only [hdefine, hr, Option.some.injEq, not_or]
          constructor
          · rintro ⟨hs, hnodup, hfresh, huses⟩
            exact ⟨⟨fun hmem => (hfresh r hmem).1 rfl, hnodup⟩,
              ⟨hs.defines r hr, fun v hv => (hfresh v hv).2⟩, hs.uses, huses⟩
          · rintro ⟨⟨hnew, hnodup⟩, ⟨hrdef, hfresh⟩, hs, huses⟩
            refine ⟨⟨hs, ?_⟩, hnodup, fun v hv => ⟨?_, hfresh v hv⟩, huses⟩
            · rintro v hv
              rw [hr, Option.some.injEq] at hv
              exact hv ▸ hrdef
            · rintro rfl
              exact hnew hv

/-- To be well scoped is to define once and before every use. -/
theorem wellScoped_nil_iff {ops : Forest Statement} :
    WellScoped [] ops.preorder ↔ DefinesOnce ops ∧ DefinesBeforeUse ops := by
  simp [wellScoped_iff, DefinesOnce, DefinesBeforeUse, UsesDefined]

/-! ### What is read is in order -/

section

variable (size : Nat) (defined : List String) {ts rest l : List Located} {k : List Token}

/-- A value that is read as an operand is defined. -/
theorem parseOperand_uses {a : Attribute} (h : IsOperand k a) (hl : tokens l = k)
    (hts : ts = l ++ rest) {r : Parsed Attribute ts.length}
    (hr : parseOperand size defined ts = .ok r) : ∀ v, a = .value v → v ∈ defined := by
  rintro v rfl
  cases h with
  | value =>
      obtain ⟨⟨_, start, stop⟩, rfl, rfl⟩ := List.map_eq_singleton_iff.1 hl
      obtain rfl : ts = ⟨.value v, start, stop⟩ :: rest := hts
      unfold parseOperand at hr
      dsimp only at hr
      split at hr
      · assumption
      · cases hr
  | attr ha => exact absurd rfl (ha.ne_value v)

/-- Values that are read as operands are defined. -/
theorem parseOperands_uses {ts rest l : List Located} {k : List Token} {u : Located}
    {operands : List Attribute} (h : CommaSeparated IsOperand k operands) (hl : tokens l = k)
    (hu : u.token = .mark .rightParen) (hts : ts = l ++ u :: rest)
    {r : Parsed (List Attribute) ts.length} (hr : parseOperands size defined ts = .ok r) :
    ∀ v, .value v ∈ operands → v ∈ defined := by
  unfold parseOperands at hr
  split at hr
  · cases hr
  rename_i hoperand
  cases h with
  | single ha =>
      have huses := parseOperand_uses size defined ha hl hts hoperand
      simpa [eq_comm] using huses
  | cons ha has =>
      obtain ⟨m, c, rfl, hm, hc⟩ := List.map_eq_append_iff.1 hl
      obtain ⟨v, m', rfl, hv, hm'⟩ := List.map_eq_cons_iff.1 hc
      have hts' : ts = m ++ (v :: (m' ++ u :: rest)) := by simpa using hts
      have huses := parseOperand_uses size defined ha hm hts' hoperand
      obtain ⟨_, hparse⟩ := parseOperand_complete size defined ha hm huses hts'
      cases hoperand.symm.trans hparse
      rw [dif_pos (by simp [first?, hv])] at hr
      split at hr
      · cases hr
      rename_i hlater
      have hrest := parseOperands_uses has hm' hu rfl hlater
      intro w hw
      rcases List.mem_cons.1 hw with heq | hw
      · exact huses w heq.symm
      · exact hrest w hw
termination_by k.length

/-- Arguments that are parsed use defined values only. -/
theorem parseArguments_uses {operands : List Attribute} (h : IsArguments k operands)
    (hl : tokens l = k) (hts : ts = l ++ rest) {r : Optionally (List Attribute) ts.length}
    (hr : parseArguments size defined ts = .ok r) : ∀ v, .value v ∈ operands → v ∈ defined := by
  cases h with
  | absent => exact fun _ hv => absurd hv List.not_mem_nil
  | empty => exact fun _ hv => absurd hv List.not_mem_nil
  | present hoperands =>
      obtain ⟨t, l', rfl, ht, hl'⟩ := List.map_eq_cons_iff.1 hl
      obtain ⟨m, c, rfl, hm, hc⟩ := List.map_eq_append_iff.1 hl'
      obtain ⟨u, rfl, hu⟩ := List.map_eq_singleton_iff.1 hc
      obtain rfl : ts = t :: (m ++ u :: rest) := by simpa using hts
      have hopen : first? (t :: (m ++ u :: rest)).tail ≠ some (.mark .rightParen) := by
        obtain ⟨v, m', hm', hv⟩ := hoperands.head IsOperand.head
        obtain ⟨w, m'', rfl, rfl, -⟩ := List.map_eq_cons_iff.1 (hm.trans hm')
        simpa [first?] using hv
      unfold parseArguments at hr
      rw [if_pos (by simp [first?, ht]), if_neg hopen] at hr
      split at hr
      · cases hr
      · rename_i hparse
        exact parseOperands_uses size defined hoperands hm hu rfl hparse

/-- A statement that is read fits. -/
theorem parseOperation_fits {s : Statement} (h : IsStatement k s) (hl : tokens l = k)
    (hparen : first? rest ≠ some (.mark .leftParen)) (hdict : startsDictionary rest = false)
    (hts : ts = l ++ rest) {r : Parsed Operation ts.length}
    (hr : parseOperation size defined ts = .ok r) : s.FitsAfter defined := by
  cases h with
  | @mk rs os as result operands bindings name hasRegion hres ha hd =>
      obtain ⟨lr, l₁, rfl, hlr, hl₁⟩ := List.map_eq_append_iff.1 hl
      obtain ⟨⟨_, start, stop⟩, l₂, rfl, rfl, hl₂⟩ := List.map_eq_cons_iff.1 hl₁
      obtain ⟨lo, la, rfl, hlo, hla⟩ := List.map_eq_append_iff.1 hl₂
      obtain rfl : ts = lr ++ ⟨.ident name, start, stop⟩ :: (lo ++ (la ++ rest)) := by
        simpa using hts
      obtain ⟨_, hresult⟩ := parseResult_complete size hres hlr
        (show Located.token ⟨.ident name, start, stop⟩ = _ from rfl)
        (show _ = lr ++ _ :: (lo ++ (la ++ rest)) from rfl)
      have hparen' : first? (la ++ rest) ≠ some (.mark .leftParen) := by
        cases hd with
        | absent => simpa [List.map_eq_nil_iff.1 hla] using hparen
        | present _ =>
            obtain ⟨b, la', rfl, hb, -⟩ := List.map_eq_cons_iff.1 hla
            simp [first?, hb]
      obtain ⟨_, hdictionary⟩ := parseDictionary_complete size hd hla hdict rfl
      unfold parseOperation at hr
      simp only [hresult] at hr
      split at hr
      · cases hr
      rename_i hparse
      have huses := parseArguments_uses size defined ha hlo rfl hparse
      obtain ⟨_, harguments⟩ := parseArguments_complete size defined ha hlo huses hparen' rfl
      cases hparse.symm.trans harguments
      simp only [hdictionary] at hr
      refine ⟨huses, fun v hv hmem => ?_⟩
      obtain rfl : result = some v := hv
      simp only [if_pos hmem] at hr
      cases hr

/-- The statements of a block that is read fit one after the other. -/
theorem parseBlock_wellScoped {c : List Located} {inBraces : Bool} {ops : Forest Statement}
    (h : IsBlock k ops) (hl : tokens l = k) (hc : tokens c = closing inBraces)
    (hrest : inBraces = false → rest = []) (hts : ts = l ++ (c ++ rest))
    {r : Optionally Block ts.length} (hr : parseBlock size inBraces defined ts = .ok r) :
    WellScoped defined ops.preorder := by
  induction h generalizing ts rest l c defined inBraces with
  | nil => trivial
  | @plain ks ku s later hs hplain hblock ih =>
      obtain ⟨ls, lu, rfl, hls, hlu⟩ := List.map_eq_append_iff.1 hl
      obtain rfl : ts = ls ++ (lu ++ (c ++ rest)) := by simpa using hts
      obtain ⟨hopen, hne⟩ := hs.not_closing hls inBraces (lu ++ (c ++ rest))
      have hnext : ∀ {m}, first? (lu ++ (c ++ rest)) = some (.mark m) → m = .rightBrace :=
        fun hm => hblock.first? hlu hc hrest hm
      have hparen : first? (lu ++ (c ++ rest)) ≠ some (.mark .leftParen) :=
        fun hm => absurd (hnext hm) (by decide)
      have hbrace : first? (lu ++ (c ++ rest)) ≠ some (.mark .leftBrace) :=
        fun hm => absurd (hnext hm) (by decide)
      have hdict : startsDictionary (lu ++ (c ++ rest)) = false := by
        rw [Bool.eq_false_iff]
        exact fun hm => hbrace (first?_of_startsDictionary hm)
      unfold parseBlock at hr
      rw [if_neg hopen, if_neg hne] at hr
      split at hr
      · cases hr
      rename_i hparse
      have hfits := parseOperation_fits size defined hs hls hparen hdict rfl hparse
      obtain ⟨_, hop⟩ := parseOperation_complete size defined hs hls hplain hfits hparen hdict rfl
      cases hparse.symm.trans hop
      rw [if_neg hbrace] at hr
      split at hr
      · cases hr
      · rename_i hlater
        exact ⟨hfits, ih _ hlu hc hrest rfl hlater⟩
  | @region ks ki ku s inner later hs hregion hinner hblock ihinner ihlater =>
      obtain ⟨ls, l₁, rfl, hls, hl₁⟩ := List.map_eq_append_iff.1 hl
      obtain ⟨b, l₂, rfl, hb, hl₂⟩ := List.map_eq_cons_iff.1 hl₁
      obtain ⟨li, l₃, rfl, hli, hl₃⟩ := List.map_eq_append_iff.1 hl₂
      obtain ⟨e, lu, rfl, he, hlu⟩ := List.map_eq_cons_iff.1 hl₃
      obtain rfl : ts = ls ++ b :: (li ++ ([e] ++ (lu ++ (c ++ rest)))) := by simpa using hts
      obtain ⟨hopen, hne⟩ := hs.not_closing hls inBraces
        (b :: (li ++ ([e] ++ (lu ++ (c ++ rest)))))
      have hparen : first? (b :: (li ++ ([e] ++ (lu ++ (c ++ rest))))) ≠
          some (.mark .leftParen) := by simp [first?, hb]
      have hbrace : first? (b :: (li ++ ([e] ++ (lu ++ (c ++ rest))))) =
          some (.mark .leftBrace) := by simp [first?, hb]
      have hdict : startsDictionary (b :: (li ++ ([e] ++ (lu ++ (c ++ rest))))) = false :=
        hinner.not_startsDictionary hli he _
      have hclose : tokens [e] = closing true := by simp [closing, he]
      unfold parseBlock at hr
      rw [if_neg hopen, if_neg hne] at hr
      split at hr
      · cases hr
      rename_i hparse
      have hfits := parseOperation_fits size defined hs hls hparen hdict rfl hparse
      obtain ⟨_, hop⟩ := parseOperation_complete size defined (hs.withRegion false) hls rfl
        (hfits.withRegion false) hparen hdict rfl
      cases hparse.symm.trans hop
      rw [if_pos hbrace] at hr
      split at hr
      · cases hr
      rename_i hregionParse
      have hinside := ihinner _ hli hclose (by simp) rfl hregionParse
      obtain ⟨_, hcomplete⟩ := parseBlock_complete size _ hinner hli hclose (by simp) hinside rfl
      cases hregionParse.symm.trans hcomplete
      dsimp only at hr
      split at hr
      · cases hr
      · rename_i hlaterParse
        exact ⟨hfits, wellScoped_append.2 ⟨hinside, ihlater _ hlu hc hrest rfl hlaterParse⟩⟩

end

/-! ### Token lists -/

/-- What the parser accepts derives from the grammar. -/
theorem parseTokens_sound {size : Nat} {ts : List Located} {attributes : Dictionary}
    {ops : Forest Operation} (h : parseTokens size ts = .ok (attributes, ops)) :
    ∃ bindings statements, IsSource (tokens ts) bindings statements ∧
      WellScoped [] statements.preorder ∧ attributes = .ofList bindings ∧
      ops = statements.map Statement.operation := by
  unfold parseTokens at h
  split at h
  · rename_i hmodule
    obtain ⟨t, more, rfl, ht⟩ := first?_eq_some hmodule
    split at h
    · simp at h
    · rename_i hdictionary
      obtain ⟨la, bindings, hla, has, rfl⟩ := parseDictionary_sound hdictionary
      split at h
      · simp at h
      · rename_i hbrace
        obtain ⟨b, hb, hbtoken⟩ := expect_sound hbrace
        split at h
        · simp at h
        · rename_i hblock
          obtain ⟨l, c, statements, hl, hc, -, hs, hops, hscope, -⟩ := parseBlock_sound hblock
          split at h
          · rename_i hrest
            cases h
            refine ⟨bindings, statements, ?_, hscope, rfl, hops.symm⟩
            have hsource := IsSource.wrapped has hs
            subst hrest
            rw [List.tail_cons] at hla
            simpa [ht, hla, hb, hbtoken, hl, hc, closing] using hsource
          · simp [fail] at h
  · rename_i hmodule
    split at h
    · simp at h
    · rename_i hblock
      obtain ⟨l, c, statements, hl, hc, hrest, hs, hops, hscope, -⟩ := parseBlock_sound hblock
      obtain rfl := hrest rfl
      obtain rfl := List.map_eq_nil_iff.1 hc
      obtain rfl : ts = l := by simpa using hl
      cases h
      refine ⟨[], statements, .bare ?_ hs, hscope, rfl, hops.symm⟩
      simpa [first?] using hmodule

/-- What derives from the grammar and uses its values well is accepted. -/
theorem parseTokens_complete (size : Nat) {ts : List Located}
    {bindings : List (String × Attribute)} {statements : Forest Statement}
    (h : IsSource (tokens ts) bindings statements) (hscope : WellScoped [] statements.preorder) :
    parseTokens size ts = .ok (.ofList bindings, statements.map Statement.operation) := by
  generalize hk : tokens ts = k at h
  unfold parseTokens
  cases h with
  | wrapped hd hblock =>
      obtain ⟨t, l₁, rfl, ht, hl₁⟩ := List.map_eq_cons_iff.1 hk
      obtain ⟨la, l₂, rfl, hla, hl₂⟩ := List.map_eq_append_iff.1 hl₁
      obtain ⟨b, l₃, rfl, hb, hl₃⟩ := List.map_eq_cons_iff.1 hl₂
      obtain ⟨l, c, rfl, hl, hc⟩ := List.map_eq_append_iff.1 hl₃
      obtain ⟨e, rfl, he⟩ := List.map_eq_singleton_iff.1 hc
      have hmodule : first? (t :: (la ++ b :: (l ++ [e]))) = some (.ident "module") := by
        simp [first?, ht]
      have hdict : startsDictionary (b :: (l ++ [e])) = false :=
        hblock.not_startsDictionary hl he []
      obtain ⟨_, hdictionary⟩ := parseDictionary_complete size hd hla hdict rfl
      obtain ⟨_, hbrace⟩ := expect_complete size hb (show b :: (l ++ [e]) = _ from rfl)
      obtain ⟨_, hparse⟩ := parseBlock_complete size [] hblock hl
        (show tokens [e] = closing true by simp [closing, he]) (by simp) hscope
        (show l ++ [e] = l ++ ([e] ++ []) by simp)
      simp only [hmodule, if_true, List.tail_cons, hdictionary, hbrace, hparse]
  | bare hmodule hblock =>
      obtain ⟨_, hparse⟩ := parseBlock_complete size [] hblock hk
        (show tokens [] = closing false from rfl) (by simp) hscope
        (show ts = ts ++ ([] ++ []) by simp)
      have hfirst : first? ts ≠ some (.ident "module") := by
        rw [← hk] at hmodule
        simpa [first?] using hmodule
      simp only [if_neg hfirst, hparse]
      rfl

/-- The statements of a token list that is read fit one after the other, however it derives from the
grammar. -/
theorem parseTokens_wellScoped {size : Nat} {ts : List Located}
    {bindings : List (String × Attribute)}
    {statements : Forest Statement} (h : IsSource (tokens ts) bindings statements)
    {contents : Dictionary × Forest Operation} (hr : parseTokens size ts = .ok contents) :
    WellScoped [] statements.preorder := by
  generalize hk : tokens ts = k at h
  unfold parseTokens at hr
  cases h with
  | wrapped hd hblock =>
      obtain ⟨t, l₁, rfl, ht, hl₁⟩ := List.map_eq_cons_iff.1 hk
      obtain ⟨la, l₂, rfl, hla, hl₂⟩ := List.map_eq_append_iff.1 hl₁
      obtain ⟨b, l₃, rfl, hb, hl₃⟩ := List.map_eq_cons_iff.1 hl₂
      obtain ⟨l, c, rfl, hl, hc⟩ := List.map_eq_append_iff.1 hl₃
      obtain ⟨e, rfl, he⟩ := List.map_eq_singleton_iff.1 hc
      have hmodule : first? (t :: (la ++ b :: (l ++ [e]))) = some (.ident "module") := by
        simp [first?, ht]
      have hdict : startsDictionary (b :: (l ++ [e])) = false :=
        hblock.not_startsDictionary hl he []
      obtain ⟨_, hdictionary⟩ := parseDictionary_complete size hd hla hdict rfl
      obtain ⟨_, hbrace⟩ := expect_complete size hb (show b :: (l ++ [e]) = _ from rfl)
      simp only [hmodule, if_true, List.tail_cons, hdictionary, hbrace] at hr
      split at hr
      · cases hr
      · rename_i hparse
        exact parseBlock_wellScoped size [] hblock hl
          (show tokens [e] = closing true by simp [closing, he]) (by simp)
          (show l ++ [e] = l ++ ([e] ++ []) by simp) hparse
  | bare hmodule hblock =>
      have hfirst : first? ts ≠ some (.ident "module") := by
        rw [← hk] at hmodule
        simpa [first?] using hmodule
      rw [if_neg hfirst] at hr
      split at hr
      · cases hr
      · rename_i hparse
        exact parseBlock_wellScoped size [] hblock hk (show tokens [] = closing false from rfl)
          (by simp) (show ts = ts ++ ([] ++ []) by simp) hparse

/-- The token lists that the parser accepts, and what they stand for. -/
theorem parseTokens_eq_ok_iff {size : Nat} {ts : List Located} {attributes : Dictionary}
    {ops : Forest Operation} :
    parseTokens size ts = .ok (attributes, ops) ↔
      ∃ bindings statements, IsSource (tokens ts) bindings statements ∧
        WellScoped [] statements.preorder ∧ attributes = .ofList bindings ∧
        ops = statements.map Statement.operation := by
  constructor
  · exact parseTokens_sound
  · rintro ⟨bindings, statements, hsource, hscope, rfl, rfl⟩
    exact parseTokens_complete size hsource hscope

end Source

/-! ### Programs -/

open Source

/-- The operations of a program made from a forest are numbered in the order of the text. -/
theorem Program.op_ofForest {attributes : Dictionary} {ops : Forest Operation} {i : Nat}
    (h : i < ops.preorder.length) : (ofForest attributes ops).op i = ops.preorder[i] := by
  rw [Forest.length_preorder] at h
  simp [op, ofForest, h]

/-- A program made from a forest has that forest as its contents. -/
@[simp] theorem Program.contents_ofForest (attributes : Dictionary) (ops : Forest Operation) :
    (ofForest attributes ops).contents = ops :=
  Forest.map_number fun i hi => by rw [Nat.zero_add]; exact op_ofForest hi

/-- The program that a derivation describes is the one whose operations are created in
pre-order. -/
theorem Program.isArenaOf_iff {p : Program} {bindings : List (String × Attribute)}
    {ops : Forest Statement} :
    p.IsArenaOf bindings ops ↔ p = .ofForest (.ofList bindings) (ops.map Statement.operation) := by
  constructor
  · intro h
    have hattributes : p.attributes = .ofList bindings :=
      Dictionary.ext_get? fun key => by rw [h.attributes, Dictionary.get?_ofList]
    have hslots : p.slots.toList = (ops.map Statement.operation).preorder.map fun op => { op } := by
      rw [Forest.preorder_map, ← h.arena, List.map_map]
      symm
      refine (List.map_congr_left fun s hs => ?_).trans (List.map_id _)
      obtain ⟨op, erased⟩ := s
      obtain rfl : erased = false := h.live _ hs
      rfl
    have hbody : p.body = (ops.map Statement.operation).number 0 := by
      have hsize : p.slots.size = p.body.size := by
        rw [← Forest.length_preorder, ← Program.walk, h.numbering, List.length_range]
      rw [← h.trees, Program.contents, Forest.number_map, Forest.number_eq_self]
      rw [← hsize, ← List.range_eq_range', ← h.numbering, Program.walk]
    obtain ⟨slots, body, detached, attributes⟩ := p
    obtain rfl : detached = [] := h.detached
    have hslots' : slots = ((ops.map Statement.operation).preorder.map fun op => { op }).toArray :=
      Array.ext' hslots
    rw [ofForest, ← hattributes, ← hbody, ← hslots']
  · rintro rfl
    refine ⟨?_, ?_, contents_ofForest _ _, ?_, rfl, ?_, ?_⟩
    · simp [ofForest, Function.comp_def]
    · simp [ofForest]
    · simp [walk, ofForest, List.range_eq_range']
    · exact Dictionary.get?_ofList bindings
    · exact fun s _ => Dictionary.get?_ofList s.bindings

/-- The program of a source is the one of the contents of its tokens. -/
theorem parse_eq_ok_iff {source : String} {ts : List Located} (h : tokenize source = .ok ts)
    {p : Program} :
    parse source = .ok p ↔ ∃ attributes ops,
      parseTokens source.utf8ByteSize ts = .ok (attributes, ops) ∧
        p = .ofForest attributes ops := by
  rw [parse, parseContents]
  simp only [h]
  rcases parseTokens source.utf8ByteSize ts with e | ⟨attributes, ops⟩
  · simp [Except.map]
  · simp only [Except.map, Except.ok.injEq, Prod.mk.injEq]
    exact ⟨fun h => ⟨_, _, ⟨rfl, rfl⟩, h.symm⟩, by rintro ⟨_, _, ⟨rfl, rfl⟩, rfl⟩; rfl⟩

/-- A source that is parsed is cut into tokens. -/
theorem tokenize_of_parse {source : String} {p : Program} (h : parse source = .ok p) :
    ∃ ts, tokenize source = .ok ts := by
  rcases htokens : tokenize source with e | ts
  · simp [parse, parseContents, htokens, Except.map] at h
  · exact ⟨ts, rfl⟩

/-- **The parser accepts exactly its grammar.** A source that is cut into tokens is accepted when
its tokens derive from the grammar, no two operations define the same value and every value is
defined by an operation that comes earlier. Its program is then the one that the derivation
describes. -/
theorem parse_eq_ok_iff_derives {source : String} {ts : List Located}
    (h : tokenize source = .ok ts) {p : Program} :
    parse source = .ok p ↔
      ∃ bindings ops, IsSource (tokens ts) bindings ops ∧ DefinesOnce ops ∧
        DefinesBeforeUse ops ∧ p.IsArenaOf bindings ops := by
  rw [parse_eq_ok_iff h]
  constructor
  · rintro ⟨attributes, ops, htokens, rfl⟩
    obtain ⟨bindings, statements, hsource, hscope, rfl, rfl⟩ := parseTokens_eq_ok_iff.1 htokens
    obtain ⟨honce, hbefore⟩ := wellScoped_nil_iff.1 hscope
    exact ⟨bindings, statements, hsource, honce, hbefore, Program.isArenaOf_iff.2 rfl⟩
  · rintro ⟨bindings, statements, hsource, honce, hbefore, harena⟩
    exact ⟨_, _, parseTokens_eq_ok_iff.2
      ⟨bindings, statements, hsource, wellScoped_nil_iff.2 ⟨honce, hbefore⟩, rfl, rfl⟩,
      Program.isArenaOf_iff.1 harena⟩

/-- A value may be used in the region of the operation that defines it. -/
theorem parse_use_in_region : ∃ ts p, tokenize "%a = t.x \x7b t.y(%a) \x7d" = .ok ts ∧
    parse "%a = t.x \x7b t.y(%a) \x7d" = .ok p ∧ (p.op 1).operands = [.value "a"] := by
  have heval : (tokenize "%a = t.x \x7b t.y(%a) \x7d").toOption.map tokens =
      some [.value "a", .mark .equals, .ident "t.x", .mark .leftBrace, .ident "t.y",
        .mark .leftParen, .value "a", .mark .rightParen, .mark .rightBrace] := by
    decide +kernel
  rcases h : tokenize "%a = t.x \x7b t.y(%a) \x7d" with e | ts
  · simp [h, Except.toOption] at heval
  have hts : tokens ts = [.value "a", .mark .equals, .ident "t.x", .mark .leftBrace,
      .ident "t.y", .mark .leftParen, .value "a", .mark .rightParen, .mark .rightBrace] := by
    simpa [h, Except.toOption] using heval
  have houter := IsStatement.mk "t.x" true (.present "a") .absent .absent
  have hinner := IsStatement.mk "t.y" false .absent (.present (.single (.value "a"))) .absent
  have hblock := IsBlock.region houter rfl (.plain hinner rfl .nil) .nil
  have hscope : WellScoped [] (Forest.preorder (.cons ⟨some "a", "t.x", [], [], true⟩
      (.cons ⟨none, "t.y", [.value "a"], [], false⟩ .nil .nil) .nil)) :=
    ⟨⟨by simp, by simp⟩, ⟨by simp [define, Statement.operation], by simp⟩, trivial⟩
  obtain ⟨honce, hbefore⟩ := wellScoped_nil_iff.1 hscope
  refine ⟨ts, _, rfl, (parse_eq_ok_iff_derives h).2 ⟨[], _, ?_, honce, hbefore,
    Program.isArenaOf_iff.2 rfl⟩, rfl⟩
  rw [hts]
  exact .bare (by decide) hblock

end TileFlow
