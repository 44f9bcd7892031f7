import TileFlow.Proofs.Source.Grammar

/-!
# The parser is sound

Each part of the parser splits its input into what it consumes and what it leaves, and what it
consumes derives from the rule of the grammar that it reads. The statements that are read use
only values that are defined by then, and define only new ones.

## Main results

* `parseAttribute_sound`, `parseOperands_sound`, `parseBindings_sound`: the parts of a
  statement.
* `parseOperation_sound`: a statement up to its region.
* `parseBlock_sound`: a block, in braces or at the top.
-/

namespace TileFlow

namespace Source

variable {size : Nat} {defined : List String} {ts rest : List Located}

/-- The first token is that of the first located one. -/
theorem first?_eq_some {token : Token} (h : first? ts = some token) :
    ∃ t more, ts = t :: more ∧ t.token = token := by
  cases ts with
  | nil => simp [first?] at h
  | cons t more => exact ⟨t, more, rfl, by simpa [first?] using h⟩

/-! ### Soundness: what is consumed derives from the grammar -/

/-- A mark that was accepted stood there. -/
theorem expect_sound {m : Mark} {u : Unit} {hlt : rest.length < ts.length}
    (h : expect size m ts = .ok ⟨u, rest, hlt⟩) : ∃ t, ts = t :: rest ∧ t.token = .mark m := by
  cases ts with
  | nil => simp [expect, fail] at h
  | cons t more =>
      simp only [expect] at h
      split at h
      · rename_i ht
        cases h
        exact ⟨t, rfl, ht⟩
      · simp [fail] at h

mutual

/-- What `parseAttribute` consumes is an attribute. -/
theorem parseAttribute_sound {ts rest : List Located} {a : Attribute}
    {hlt : rest.length < ts.length} (h : parseAttribute size ts = .ok ⟨a, rest, hlt⟩) :
    ∃ l, ts = l ++ rest ∧ IsAttribute (tokens l) a := by
  unfold parseAttribute at h
  split at h
  · simp [fail] at h
  · rename_i t more
    split at h
    · rename_i n ht
      cases h
      exact ⟨[t], rfl, by simpa [ht] using IsAttribute.int n⟩
    · rename_i s ht
      cases h
      exact ⟨[t], rfl, by simpa [ht] using IsAttribute.str s⟩
    · rename_i s ht
      cases h
      exact ⟨[t], rfl, by simpa [ht] using IsAttribute.ident s⟩
    · rename_i s ht
      cases h
      exact ⟨[t], rfl, by simpa [ht] using IsAttribute.symbol s⟩
    · rename_i ht
      split at h
      · rename_i hclose
        obtain ⟨u, last, rfl, hu⟩ := first?_eq_some hclose
        cases h
        exact ⟨[t, u], rfl, by simpa [ht, hu] using IsAttribute.emptyArray⟩
      · split at h
        · simp at h
        · rename_i hitems
          cases h
          obtain ⟨l, u, heq, hu, hl⟩ := parseItems_sound hitems
          refine ⟨t :: (l ++ [u]), by simp [heq], ?_⟩
          simpa [ht, hu] using IsAttribute.array hl
    · simp [fail] at h
termination_by (ts.length, 0)

/-- What `parseItems` consumes are the items of an array and a closing bracket. -/
theorem parseItems_sound {ts rest : List Located} {items : List Attribute}
    {hlt : rest.length < ts.length} (h : parseItems size ts = .ok ⟨items, rest, hlt⟩) :
    ∃ l t, ts = l ++ t :: rest ∧ t.token = .mark .rightBracket ∧
      CommaSeparated IsAttribute (tokens l) items := by
  unfold parseItems at h
  split at h
  · simp at h
  · rename_i item afterItem h₁ hitem
    obtain ⟨l, heq, hl⟩ := parseAttribute_sound hitem
    split at h
    · rename_i hcomma
      obtain ⟨u, more, hmore, hu⟩ := first?_eq_some hcomma
      split at h
      · simp at h
      · rename_i hitems
        cases h
        obtain ⟨k, t, heq', ht, hk⟩ := parseItems_sound hitems
        refine ⟨l ++ u :: k, t, by simp_all, ht, ?_⟩
        simpa [hu] using CommaSeparated.cons hl hk
    · split at h
      · simp at h
      · rename_i hclose
        cases h
        obtain ⟨t, heq', ht⟩ := expect_sound hclose
        exact ⟨l, t, by simp_all, ht, .single hl⟩
termination_by (ts.length, 1)

end

/-- An attribute is not a reference to a value. -/
theorem IsAttribute.ne_value {ts : List Token} {a : Attribute} (h : IsAttribute ts a)
    (name : String) : a ≠ .value name := by
  cases h <;> simp

/-- What `parseOperand` consumes is an operand; if it is a value, that value is defined. -/
theorem parseOperand_sound {a : Attribute} {hlt : rest.length < ts.length}
    (h : parseOperand size defined ts = .ok ⟨a, rest, hlt⟩) :
    ∃ l, ts = l ++ rest ∧ IsOperand (tokens l) a ∧ ∀ v, a = .value v → v ∈ defined := by
  unfold parseOperand at h
  split at h
  · rename_i name start stop more
    split at h
    · rename_i hmem
      cases h
      refine ⟨[⟨.value name, start, stop⟩], rfl, .value name, ?_⟩
      rintro v ⟨⟩
      exact hmem
    · simp [fail] at h
  · obtain ⟨l, heq, hl⟩ := parseAttribute_sound h
    exact ⟨l, heq, .attr hl, fun v hv => absurd hv (hl.ne_value v)⟩

/-- What `parseOperands` consumes are operands and a closing parenthesis; all values among the
operands are defined. -/
theorem parseOperands_sound {ts rest : List Located} {operands : List Attribute}
    {hlt : rest.length < ts.length}
    (h : parseOperands size defined ts = .ok ⟨operands, rest, hlt⟩) :
    ∃ l t, ts = l ++ t :: rest ∧ t.token = .mark .rightParen ∧
      CommaSeparated IsOperand (tokens l) operands ∧
      ∀ v, .value v ∈ operands → v ∈ defined := by
  unfold parseOperands at h
  split at h
  · simp at h
  · rename_i operand afterOperand h₁ hoperand
    obtain ⟨l, heq, hl, hdef⟩ := parseOperand_sound hoperand
    split at h
    · rename_i hcomma
      obtain ⟨u, more, hmore, hu⟩ := first?_eq_some hcomma
      split at h
      · simp at h
      · rename_i hoperands
        cases h
        obtain ⟨k, t, heq', ht, hk, hdefs⟩ := parseOperands_sound hoperands
        refine ⟨l ++ u :: k, t, by simp_all, ht, ?_, ?_⟩
        · simpa [hu] using CommaSeparated.cons hl hk
        · intro v hv
          rcases List.mem_cons.1 hv with hv | hv
          · exact hdef v hv.symm
          · exact hdefs v hv
    · split at h
      · simp at h
      · rename_i hclose
        cases h
        obtain ⟨t, heq', ht⟩ := expect_sound hclose
        exact ⟨l, t, by simp_all, ht, .single hl, by simpa [eq_comm] using hdef⟩
termination_by ts.length

/-- What `parseBindings` consumes are bindings and a closing brace. -/
theorem parseBindings_sound {ts rest : List Located} {bindings : List (String × Attribute)}
    {hlt : rest.length < ts.length} (h : parseBindings size ts = .ok ⟨bindings, rest, hlt⟩) :
    ∃ l t, ts = l ++ t :: rest ∧ t.token = .mark .rightBrace ∧
      CommaSeparated IsBinding (tokens l) bindings := by
  unfold parseBindings at h
  split at h
  · rename_i key start stop afterKey
    split at h
    · simp at h
    · rename_i afterEquals h₁ hequals
      obtain ⟨e, heq, he⟩ := expect_sound hequals
      split at h
      · simp at h
      · rename_i value afterValue h₂ hvalue
        obtain ⟨l, heq', hl⟩ := parseAttribute_sound hvalue
        have hb := IsBinding.mk key hl
        split at h
        · rename_i hcomma
          obtain ⟨u, more, hmore, hu⟩ := first?_eq_some hcomma
          split at h
          · simp at h
          · rename_i hbindings
            cases h
            obtain ⟨k, t, heq'', ht, hk⟩ := parseBindings_sound hbindings
            refine ⟨⟨.ident key, start, stop⟩ :: e :: l ++ u :: k, t, by simp_all, ht, ?_⟩
            simpa [he, hu] using CommaSeparated.cons hb hk
        · split at h
          · simp at h
          · rename_i hclose
            cases h
            obtain ⟨t, heq'', ht⟩ := expect_sound hclose
            refine ⟨⟨.ident key, start, stop⟩ :: e :: l, t, by simp_all, ht, ?_⟩
            simpa [he] using CommaSeparated.single hb
  · simp [fail] at h
termination_by ts.length
decreasing_by
  subst ‹ts = _ :: _›
  simp only [List.length_cons, List.length_tail]
  omega

/-- A dictionary is told by a brace, a key and an equals sign. -/
theorem startsDictionary_iff :
    startsDictionary ts = true ↔
      ∃ b k e rest key, ts = b :: k :: e :: rest ∧ b.token = .mark .leftBrace ∧
        k.token = .ident key ∧ e.token = .mark .equals := by
  constructor
  · intro h
    unfold startsDictionary at h
    split at h
    · exact ⟨_, _, _, _, _, rfl, rfl, rfl, rfl⟩
    · simp at h
  · rintro ⟨⟨_, _, _⟩, ⟨_, _, _⟩, ⟨_, _, _⟩, rest, key, rfl, rfl, rfl, rfl⟩
    rfl

/-- What `parseDictionary` consumes is an optional dictionary. -/
theorem parseDictionary_sound {d : Dictionary} {hle : rest.length ≤ ts.length}
    (h : parseDictionary size ts = .ok ⟨d, rest, hle⟩) :
    ∃ l bindings, ts = l ++ rest ∧ IsDictionary (tokens l) bindings ∧ d = .ofList bindings := by
  unfold parseDictionary at h
  split at h
  · rename_i hstart
    obtain ⟨b, k, e, more, key, rfl, hb, -, -⟩ := startsDictionary_iff.1 hstart
    split at h
    · simp at h
    · rename_i bindings _ _ hbindings
      cases h
      obtain ⟨l, t, heq, ht, hl⟩ := parseBindings_sound hbindings
      rw [List.tail_cons] at heq
      refine ⟨b :: (l ++ [t]), bindings, by simp [heq], ?_, rfl⟩
      simpa [hb, ht] using IsDictionary.present hl
  · cases h
    exact ⟨[], [], rfl, .absent, rfl⟩

/-- What `parseArguments` consumes are optional operands. -/
theorem parseArguments_sound {operands : List Attribute} {hle : rest.length ≤ ts.length}
    (h : parseArguments size defined ts = .ok ⟨operands, rest, hle⟩) :
    ∃ l, ts = l ++ rest ∧ IsArguments (tokens l) operands ∧
      ∀ v, .value v ∈ operands → v ∈ defined := by
  unfold parseArguments at h
  split at h
  · rename_i hopen
    obtain ⟨t, more, rfl, ht⟩ := first?_eq_some hopen
    split at h
    · rename_i hclose
      obtain ⟨u, last, rfl, hu⟩ := first?_eq_some hclose
      cases h
      exact ⟨[t, u], rfl, by simpa [ht, hu] using IsArguments.empty, by simp⟩
    · split at h
      · simp at h
      · rename_i hoperands
        cases h
        obtain ⟨l, u, heq, hu, hl, hdef⟩ := parseOperands_sound hoperands
        rw [List.tail_cons] at heq
        refine ⟨t :: (l ++ [u]), by simp [heq], ?_, hdef⟩
        simpa [ht, hu] using IsArguments.present hl
  · cases h
    exact ⟨[], rfl, .absent, by simp⟩

/-- What `parseResult` consumes is an optional result. -/
theorem parseResult_sound {result : Option String} {hle : rest.length ≤ ts.length}
    (h : parseResult size ts = .ok ⟨result, rest, hle⟩) :
    ∃ l, ts = l ++ rest ∧ IsResult (tokens l) result := by
  unfold parseResult at h
  split at h
  · rename_i name start stop more
    split at h
    · simp at h
    · rename_i hequals
      cases h
      obtain ⟨e, heq, he⟩ := expect_sound hequals
      exact ⟨[⟨.value name, start, stop⟩, e], by simp [heq],
        by simpa [he] using IsResult.present name⟩
  · cases h
    exact ⟨[], rfl, .absent⟩

/-- The rule for statements leaves the region open. -/
theorem IsStatement.withRegion {ts : List Token} {s : Statement} (h : IsStatement ts s)
    (hasRegion : Bool) : IsStatement ts { s with hasRegion } := by
  cases h with
  | mk name _ hr ha hd => exact .mk name hasRegion hr ha hd

/-- What `parseOperation` consumes is a statement up to its region. -/
theorem parseOperation_sound {op : Operation} {hlt : rest.length < ts.length}
    (h : parseOperation size defined ts = .ok ⟨op, rest, hlt⟩) :
    ∃ l s, ts = l ++ rest ∧ IsStatement (tokens l) s ∧ s.hasRegion = false ∧
      s.operation = op ∧ s.FitsAfter defined := by
  unfold parseOperation at h
  split at h
  · simp at h
  · rename_i result afterResult h₁ hresult
    obtain ⟨rs, rfl, hrs⟩ := parseResult_sound hresult
    split at h
    · rename_i name start stop afterName _ _
      split at h
      · simp at h
      · rename_i operands afterOperands h₂ harguments
        obtain ⟨os, rfl, hos, huses⟩ := parseArguments_sound harguments
        split at h
        · simp at h
        · rename_i attributes more h₃ hdictionary
          obtain ⟨as, bindings, rfl, has, rfl⟩ := parseDictionary_sound hdictionary
          have hs := IsStatement.mk name false hrs hos has
          split at h
          · rename_i v
            split at h
            · simp [fail] at h
            · rename_i hnew
              cases h
              refine ⟨rs ++ ⟨.ident name, start, stop⟩ :: (os ++ as), _, by simp,
                by simpa using hs, rfl, rfl, huses, ?_⟩
              rintro w ⟨⟩
              exact hnew
          · cases h
            exact ⟨rs ++ ⟨.ident name, start, stop⟩ :: (os ++ as), _, by simp,
              by simpa using hs, rfl, rfl, huses, by simp⟩
    · simp [fail] at h

/-- The tokens that close a block. -/
def closing (inBraces : Bool) : List Token :=
  if inBraces then [.mark .rightBrace] else []

/-- What `parseBlock` consumes is a block and what closes it; without braces nothing is left. -/
theorem parseBlock_sound {ts rest : List Located} {defined : List String} {inBraces : Bool}
    {b : Block} {hle : rest.length ≤ ts.length}
    (h : parseBlock size inBraces defined ts = .ok ⟨b, rest, hle⟩) :
    ∃ l k ops, ts = l ++ (k ++ rest) ∧ tokens k = closing inBraces ∧
      (inBraces = false → rest = []) ∧ IsBlock (tokens l) ops ∧
      ops.map Statement.operation = b.ops ∧ WellScoped defined ops.preorder ∧
      b.defined = definedAfter defined ops.preorder := by
  unfold parseBlock at h
  split at h
  · rename_i hclose
    obtain ⟨t, more, rfl, ht⟩ := first?_eq_some hclose.2
    cases h
    exact ⟨[], [t], .nil, rfl, by simp [closing, hclose.1, ht], by simp [hclose.1], .nil, rfl,
      trivial, rfl⟩
  · split at h
    · rename_i hnil
      split at h
      · simp [fail] at h
      · rename_i hopen
        cases h
        exact ⟨[], [], .nil, rfl, by simp [closing, hopen], fun _ => hnil, .nil, rfl, trivial,
          rfl⟩
    · split at h
      · simp at h
      · rename_i op afterOp h₁ hop
        obtain ⟨l, s, hl, hs, hplain, rfl, hfits⟩ := parseOperation_sound hop
        split at h
        · rename_i hregion
          obtain ⟨t, inside, hafter, ht⟩ := first?_eq_some hregion
          have hshorter : afterOp.tail.length ≤ afterOp.length := by simp
          split at h
          · simp at h
          · rename_i inner afterRegion h₂ hinner
            split at h
            · simp at h
            · rename_i later more h₃ hlater
              cases h
              obtain ⟨li, ki, opsi, hi, hki, -, hbi, hmi, hwi, hdi⟩ := parseBlock_sound hinner
              obtain ⟨ll, kl, opsl, hll, hkl, hrl, hbl, hml, hwl, hdl⟩ :=
                parseBlock_sound hlater
              rw [hafter, List.tail_cons] at hi
              refine ⟨l ++ t :: (li ++ (ki ++ ll)), kl,
                .cons { s with hasRegion := true } opsi opsl, by simp [hl, hafter, hi, hll], hkl,
                hrl, ?_, ?_, ?_, ?_⟩
              · have hblock := IsBlock.region (hs.withRegion true) rfl hbi hbl
                simpa [ht, hki, closing] using hblock
              · simp [Forest.map, hmi, hml, Statement.operation]
              · refine ⟨hfits.withRegion true, wellScoped_append.2 ⟨hwi, ?_⟩⟩
                rwa [hdi] at hwl
              · rw [hdl, hdi]
                exact (definedAfter_append _ _ _).symm
        · split at h
          · simp at h
          · rename_i later more h₂ hlater
            cases h
            obtain ⟨ll, kl, opsl, hll, hkl, hrl, hbl, hml, hwl, hdl⟩ := parseBlock_sound hlater
            refine ⟨l ++ ll, kl, .cons s .nil opsl, by simp [hl, hll], hkl, hrl, ?_, ?_, ?_, ?_⟩
            · simpa using IsBlock.plain hs hplain hbl
            · simp [Forest.map, hml]
            · exact ⟨hfits, hwl⟩
            · exact hdl
termination_by ts.length
decreasing_by all_goals omega

end Source

end TileFlow
