import TileFlow.Proofs.Source.Soundness

/-!
# The parser is complete

Whatever derives from a rule of the grammar is read by the part of the parser for that rule, if
what follows cannot continue it: operands are not followed by a parenthesis that would open them,
and a statement without a dictionary is not followed by one.

## Main results

* `parseAttribute_complete`, `parseOperands_complete`, `parseBindings_complete`: the parts of a
  statement.
* `parseOperation_complete`: a statement up to its region.
* `parseBlock_complete`: a block, in braces or at the top.
-/

namespace TileFlow

namespace Source

variable (size : Nat) (defined : List String) {ts rest l : List Located} {k : List Token}

/-! ### How parts of the grammar start -/

/-- Whether a token can be the first one of an attribute. -/
def StartsAttribute : Token → Prop
  | .value _ => False
  | .mark m => m = .leftBracket
  | _ => True

/-- A list of items starts as an item does. -/
theorem CommaSeparated.head {α : Type} {Item : List Token → α → Prop} {P : Token → Prop}
    {xs : List α} (h : CommaSeparated Item k xs)
    (hP : ∀ {k a}, Item k a → ∃ t k', k = t :: k' ∧ P t) : ∃ t k', k = t :: k' ∧ P t := by
  cases h with
  | single ha => exact hP ha
  | cons ha _ =>
      obtain ⟨t, k', rfl, ht⟩ := hP ha
      exact ⟨t, _, rfl, ht⟩

/-- An attribute begins with a token that can begin one. -/
theorem IsAttribute.head {a : Attribute} (h : IsAttribute k a) :
    ∃ t k', k = t :: k' ∧ StartsAttribute t := by
  cases h <;> exact ⟨_, _, rfl, by simp [StartsAttribute]⟩

/-- An operand does not begin with a parenthesis that closes. -/
theorem IsOperand.head {a : Attribute} (h : IsOperand k a) :
    ∃ t k', k = t :: k' ∧ t ≠ .mark .rightParen := by
  cases h with
  | value name => exact ⟨_, _, rfl, by simp⟩
  | attr ha =>
      obtain ⟨t, k', rfl, ht⟩ := ha.head
      refine ⟨t, k', rfl, ?_⟩
      rintro rfl
      simp [StartsAttribute] at ht

/-- Bindings begin with a key and an equals sign. -/
theorem CommaSeparated.binding_head {bindings : List (String × Attribute)}
    (h : CommaSeparated IsBinding k bindings) :
    ∃ key k', k = .ident key :: .mark .equals :: k' := by
  cases h with
  | single hb =>
      obtain ⟨key, ha⟩ := hb
      exact ⟨key, _, rfl⟩
  | cons hb _ =>
      obtain ⟨key, ha⟩ := hb
      exact ⟨key, _, rfl⟩

/-- A statement starts with its result or its name. -/
theorem IsStatement.head {s : Statement} (h : IsStatement k s) :
    ∃ t k', k = t :: k' ∧ ∀ m, t ≠ .mark m := by
  cases h with
  | mk name _ hr _ _ => cases hr <;> exact ⟨_, _, rfl, by simp⟩

/-- A block starts as its first statement does. -/
theorem IsBlock.head {ops : Forest Statement} (h : IsBlock k ops) :
    k = [] ∨ ∃ t k', k = t :: k' ∧ ∀ m, t ≠ .mark m := by
  cases h with
  | nil => exact .inl rfl
  | plain hs _ _ =>
      obtain ⟨t, k', rfl, ht⟩ := hs.head
      exact .inr ⟨t, _, rfl, ht⟩
  | region hs _ _ _ =>
      obtain ⟨t, k', rfl, ht⟩ := hs.head
      exact .inr ⟨t, _, rfl, ht⟩

/-- After the name of a statement within braces there is no equals sign. -/
theorem IsBlock.ne_binding {ops : Forest Statement} (h : IsBlock k ops) (k' : List Token)
    (key : String) (m : List Token) :
    k ++ .mark .rightBrace :: k' ≠ .ident key :: .mark .equals :: m := by
  have hstatement : ∀ {us vs : List Token} {s : Statement}, IsStatement us s →
      (∃ t vs', vs = t :: vs' ∧ t ≠ .mark .equals) →
      us ++ vs ≠ .ident key :: .mark .equals :: m := by
    rintro us vs s hs ⟨t, vs', rfl, ht⟩
    cases hs with
    | mk name _ hr ha hd => cases hr <;> cases ha <;> cases hd <;> simp [ht]
  cases h with
  | nil => simp
  | plain hs _ hrest =>
      rw [List.append_assoc]
      refine hstatement hs ?_
      rcases hrest.head with rfl | ⟨t, us, rfl, ht⟩
      · exact ⟨_, _, rfl, by simp⟩
      · exact ⟨_, _, rfl, ht _⟩
  | region hs _ _ _ =>
      rw [List.append_assoc]
      exact hstatement hs ⟨_, _, rfl, by simp⟩

/-! ### Attributes, operands and bindings -/

/-- A mark that stands there is accepted. -/
theorem expect_complete {m : Mark} {t : Located} (ht : t.token = .mark m) (hts : ts = t :: rest) :
    ∃ hlt, expect size m ts = .ok ⟨(), rest, hlt⟩ := by
  subst hts
  exact ⟨by simp, by simp [expect, ht]⟩

mutual

/-- Every attribute is read, whatever follows it. -/
theorem parseAttribute_complete {ts rest l : List Located} {k : List Token} {a : Attribute}
    (h : IsAttribute k a) (hl : tokens l = k) (hts : ts = l ++ rest) :
    ∃ hlt, parseAttribute size ts = .ok ⟨a, rest, hlt⟩ := by
  cases h with
  | int n | str n | ident n | symbol n =>
      obtain ⟨t, rfl, ht⟩ := List.map_eq_singleton_iff.1 hl
      obtain rfl : ts = t :: rest := hts
      refine ⟨by simp, ?_⟩
      unfold parseAttribute
      simp only [ht]
  | emptyArray =>
      obtain ⟨t, l', rfl, ht, hl'⟩ := List.map_eq_cons_iff.1 hl
      obtain ⟨u, rfl, hu⟩ := List.map_eq_singleton_iff.1 hl'
      obtain rfl : ts = t :: u :: rest := hts
      refine ⟨by simp only [List.length_cons]; omega, ?_⟩
      unfold parseAttribute
      simp [ht, hu, first?]
  | @array k' items hitems =>
      obtain ⟨t, l', rfl, ht, hl'⟩ := List.map_eq_cons_iff.1 hl
      obtain ⟨m, c, rfl, hm, hc⟩ := List.map_eq_append_iff.1 hl'
      obtain ⟨u, rfl, hu⟩ := List.map_eq_singleton_iff.1 hc
      obtain rfl : ts = t :: (m ++ u :: rest) := by simpa using hts
      have hopen : first? (m ++ u :: rest) ≠ some (.mark .rightBracket) := by
        obtain ⟨v, m', hm', hv⟩ := hitems.head IsAttribute.head
        obtain ⟨w, m'', rfl, hw, -⟩ := List.map_eq_cons_iff.1 (hm.trans hm')
        simp only [first?, List.cons_append, List.head?_cons, Option.map_some, ne_eq,
          Option.some.injEq, hw]
        rintro rfl
        simp [StartsAttribute] at hv
      obtain ⟨hlt, hparse⟩ := parseItems_complete hitems hm hu (show m ++ u :: rest = _ from rfl)
      refine ⟨by simp; omega, ?_⟩
      unfold parseAttribute
      simp only [ht, if_neg hopen, hparse]
termination_by (k.length, 0)

/-- The items of an array are read together with the closing bracket. -/
theorem parseItems_complete {ts rest l : List Located} {k : List Token} {u : Located}
    {items : List Attribute} (h : CommaSeparated IsAttribute k items) (hl : tokens l = k)
    (hu : u.token = .mark .rightBracket) (hts : ts = l ++ u :: rest) :
    ∃ hlt, parseItems size ts = .ok ⟨items, rest, hlt⟩ := by
  cases h with
  | single ha =>
      obtain ⟨hlt, hparse⟩ := parseAttribute_complete ha hl hts
      obtain ⟨hlt', hclose⟩ := expect_complete size hu (show u :: rest = _ from rfl)
      refine ⟨by simp at hlt; omega, ?_⟩
      unfold parseItems
      simp [hparse, first?, hu, hclose]
  | cons ha has =>
      obtain ⟨m, c, rfl, hm, hc⟩ := List.map_eq_append_iff.1 hl
      obtain ⟨v, m', rfl, hv, hm'⟩ := List.map_eq_cons_iff.1 hc
      obtain ⟨hlt, hparse⟩ := parseAttribute_complete ha hm
        (show ts = m ++ (v :: (m' ++ u :: rest)) by simpa using hts)
      obtain ⟨hlt', hparse'⟩ := parseItems_complete has hm' hu (show m' ++ u :: rest = _ from rfl)
      refine ⟨by simp at hlt hlt'; omega, ?_⟩
      unfold parseItems
      simp [hparse, first?, hv, hparse']
termination_by (k.length, 1)

end

/-- A defined value and every attribute are read as operands. -/
theorem parseOperand_complete {a : Attribute} (h : IsOperand k a) (hl : tokens l = k)
    (hdef : ∀ v, a = .value v → v ∈ defined) (hts : ts = l ++ rest) :
    ∃ hlt, parseOperand size defined ts = .ok ⟨a, rest, hlt⟩ := by
  cases h with
  | value name =>
      obtain ⟨⟨_, start, stop⟩, rfl, rfl⟩ := List.map_eq_singleton_iff.1 hl
      obtain rfl : ts = ⟨.value name, start, stop⟩ :: rest := hts
      refine ⟨by simp, ?_⟩
      unfold parseOperand
      simp [hdef name rfl]
  | attr ha =>
      obtain ⟨hlt, hparse⟩ := parseAttribute_complete size ha hl hts
      refine ⟨hlt, ?_⟩
      unfold parseOperand
      split
      · rename_i name start stop more
        obtain ⟨t, k', rfl, ht⟩ := ha.head
        obtain ⟨w, l', rfl, rfl, -⟩ := List.map_eq_cons_iff.1 hl
        cases hts
        exact absurd ht (by simp [StartsAttribute])
      · exact hparse

/-- Operands among the defined values are read together with the closing parenthesis. -/
theorem parseOperands_complete {ts rest l : List Located} {k : List Token} {u : Located}
    {operands : List Attribute} (h : CommaSeparated IsOperand k operands) (hl : tokens l = k)
    (hdef : ∀ v, .value v ∈ operands → v ∈ defined) (hu : u.token = .mark .rightParen)
    (hts : ts = l ++ u :: rest) :
    ∃ hlt, parseOperands size defined ts = .ok ⟨operands, rest, hlt⟩ := by
  cases h with
  | single ha =>
      obtain ⟨hlt, hparse⟩ := parseOperand_complete size defined ha hl
        (by simpa [eq_comm] using hdef) hts
      obtain ⟨hlt', hclose⟩ := expect_complete size hu (show u :: rest = _ from rfl)
      refine ⟨by simp at hlt; omega, ?_⟩
      unfold parseOperands
      simp [hparse, first?, hu, hclose]
  | cons ha has =>
      obtain ⟨m, c, rfl, hm, hc⟩ := List.map_eq_append_iff.1 hl
      obtain ⟨v, m', rfl, hv, hm'⟩ := List.map_eq_cons_iff.1 hc
      obtain ⟨hlt, hparse⟩ := parseOperand_complete size defined ha hm
        (fun v hv => hdef v (by simp [hv]))
        (show ts = m ++ (v :: (m' ++ u :: rest)) by simpa using hts)
      obtain ⟨hlt', hparse'⟩ := parseOperands_complete has hm'
        (fun v hv => hdef v (List.mem_cons_of_mem _ hv)) hu (show m' ++ u :: rest = _ from rfl)
      refine ⟨by simp at hlt hlt'; omega, ?_⟩
      unfold parseOperands
      simp [hparse, first?, hv, hparse']
termination_by k.length

/-- Bindings are read together with the closing brace. -/
theorem parseBindings_complete {ts rest l : List Located} {k : List Token} {u : Located}
    {bindings : List (String × Attribute)} (h : CommaSeparated IsBinding k bindings)
    (hl : tokens l = k) (hu : u.token = .mark .rightBrace) (hts : ts = l ++ u :: rest) :
    ∃ hlt, parseBindings size ts = .ok ⟨bindings, rest, hlt⟩ := by
  cases h with
  | single hb =>
      cases hb with
      | mk key ha =>
          obtain ⟨⟨_, start, stop⟩, l₁, rfl, rfl, hl₁⟩ := List.map_eq_cons_iff.1 hl
          obtain ⟨e, l₂, rfl, he, hl₂⟩ := List.map_eq_cons_iff.1 hl₁
          obtain rfl : ts = ⟨.ident key, start, stop⟩ :: e :: (l₂ ++ u :: rest) := hts
          obtain ⟨hlt, hequals⟩ := expect_complete size he
            (show e :: (l₂ ++ u :: rest) = _ from rfl)
          obtain ⟨hlt', hparse⟩ := parseAttribute_complete size ha hl₂
            (show l₂ ++ u :: rest = _ from rfl)
          obtain ⟨hlt'', hclose⟩ := expect_complete size hu (show u :: rest = _ from rfl)
          refine ⟨by simp; omega, ?_⟩
          unfold parseBindings
          simp [hequals, hparse, first?, hu, hclose]
  | cons hb hbs =>
      obtain ⟨m, c, rfl, hm, hc⟩ := List.map_eq_append_iff.1 hl
      obtain ⟨v, m', rfl, hv, hm'⟩ := List.map_eq_cons_iff.1 hc
      cases hb with
      | mk key ha =>
          obtain ⟨⟨_, start, stop⟩, l₁, rfl, rfl, hl₁⟩ := List.map_eq_cons_iff.1 hm
          obtain ⟨e, l₂, rfl, he, hl₂⟩ := List.map_eq_cons_iff.1 hl₁
          obtain rfl : ts = ⟨.ident key, start, stop⟩ :: e :: (l₂ ++ v :: (m' ++ u :: rest)) := by
            simpa using hts
          obtain ⟨hlt, hequals⟩ := expect_complete size he
            (show e :: (l₂ ++ v :: (m' ++ u :: rest)) = _ from rfl)
          obtain ⟨hlt', hparse⟩ := parseAttribute_complete size ha hl₂
            (show l₂ ++ v :: (m' ++ u :: rest) = _ from rfl)
          obtain ⟨hlt'', hparse'⟩ := parseBindings_complete hbs hm' hu
            (show m' ++ u :: rest = _ from rfl)
          refine ⟨by simp; omega, ?_⟩
          unfold parseBindings
          simp [hequals, hparse, first?, hv, hparse']
termination_by k.length

/-- An optional dictionary is read, if no dictionary follows it. -/
theorem parseDictionary_complete {bindings : List (String × Attribute)}
    (h : IsDictionary k bindings) (hl : tokens l = k) (hrest : startsDictionary rest = false)
    (hts : ts = l ++ rest) :
    ∃ hle, parseDictionary size ts = .ok ⟨.ofList bindings, rest, hle⟩ := by
  cases h with
  | absent =>
      obtain rfl := List.map_eq_nil_iff.1 hl
      obtain rfl : ts = rest := hts
      refine ⟨Nat.le_refl _, ?_⟩
      unfold parseDictionary
      simp [hrest, Dictionary.ofList]
  | @present k' _ hbindings =>
      obtain ⟨b, l₁, rfl, hb, hl₁⟩ := List.map_eq_cons_iff.1 hl
      obtain ⟨m, c, rfl, hm, hc⟩ := List.map_eq_append_iff.1 hl₁
      obtain ⟨u, rfl, hu⟩ := List.map_eq_singleton_iff.1 hc
      obtain rfl : ts = b :: (m ++ u :: rest) := by simpa using hts
      have hstart : startsDictionary (b :: (m ++ u :: rest)) = true := by
        obtain ⟨key, k'', hk⟩ := hbindings.binding_head
        obtain ⟨t, m₁, rfl, ht, hm₁⟩ := List.map_eq_cons_iff.1 (hm.trans hk)
        obtain ⟨e, m₂, rfl, he, -⟩ := List.map_eq_cons_iff.1 hm₁
        exact startsDictionary_iff.2 ⟨b, t, e, _, key, rfl, hb, ht, he⟩
      obtain ⟨hlt, hparse⟩ := parseBindings_complete size hbindings hm hu
        (show m ++ u :: rest = _ from rfl)
      refine ⟨by simp; omega, ?_⟩
      unfold parseDictionary
      simp [hstart, hparse]

/-- Optional operands are read, if no parenthesis follows that would open them. -/
theorem parseArguments_complete {operands : List Attribute} (h : IsArguments k operands)
    (hl : tokens l = k) (hdef : ∀ v, .value v ∈ operands → v ∈ defined)
    (hrest : first? rest ≠ some (.mark .leftParen)) (hts : ts = l ++ rest) :
    ∃ hle, parseArguments size defined ts = .ok ⟨operands, rest, hle⟩ := by
  cases h with
  | absent =>
      obtain rfl := List.map_eq_nil_iff.1 hl
      obtain rfl : ts = rest := hts
      refine ⟨Nat.le_refl _, ?_⟩
      unfold parseArguments
      simp [hrest]
  | empty =>
      obtain ⟨t, l', rfl, ht, hl'⟩ := List.map_eq_cons_iff.1 hl
      obtain ⟨u, rfl, hu⟩ := List.map_eq_singleton_iff.1 hl'
      obtain rfl : ts = t :: u :: rest := hts
      refine ⟨by simp only [List.length_cons]; omega, ?_⟩
      unfold parseArguments
      simp [ht, hu, first?]
  | present hoperands =>
      obtain ⟨t, l', rfl, ht, hl'⟩ := List.map_eq_cons_iff.1 hl
      obtain ⟨m, c, rfl, hm, hc⟩ := List.map_eq_append_iff.1 hl'
      obtain ⟨u, rfl, hu⟩ := List.map_eq_singleton_iff.1 hc
      obtain rfl : ts = t :: (m ++ u :: rest) := by simpa using hts
      have hopen : first? (m ++ u :: rest) ≠ some (.mark .rightParen) := by
        obtain ⟨v, m', hm', hv⟩ := hoperands.head IsOperand.head
        obtain ⟨w, m'', rfl, rfl, -⟩ := List.map_eq_cons_iff.1 (hm.trans hm')
        simpa [first?] using hv
      obtain ⟨hlt, hparse⟩ := parseOperands_complete size defined hoperands hm hdef hu
        (show m ++ u :: rest = _ from rfl)
      refine ⟨by simp; omega, ?_⟩
      unfold parseArguments
      have hfirst : first? (t :: (m ++ u :: rest)) = some (.mark .leftParen) := by
        simp [first?, ht]
      simp only [hfirst, if_true, List.tail_cons, if_neg hopen, hparse]

/-- An optional result is read, if an identifier follows it. -/
theorem parseResult_complete {result : Option String} {t : Located} {name : String}
    (h : IsResult k result) (hl : tokens l = k) (ht : t.token = .ident name)
    (hts : ts = l ++ t :: rest) :
    ∃ hle, parseResult size ts = .ok ⟨result, t :: rest, hle⟩ := by
  cases h with
  | absent =>
      obtain rfl := List.map_eq_nil_iff.1 hl
      obtain rfl : ts = t :: rest := hts
      obtain ⟨_, start, stop⟩ := t
      cases ht
      exact ⟨Nat.le_refl _, rfl⟩
  | present v =>
      obtain ⟨⟨_, start, stop⟩, l', rfl, rfl, hl'⟩ := List.map_eq_cons_iff.1 hl
      obtain ⟨e, rfl, he⟩ := List.map_eq_singleton_iff.1 hl'
      obtain rfl : ts = ⟨.value v, start, stop⟩ :: e :: t :: rest := hts
      obtain ⟨hlt, hequals⟩ := expect_complete size he (show e :: t :: rest = _ from rfl)
      refine ⟨by simp, ?_⟩
      unfold parseResult
      simp [hequals]

/-- A statement that fits is read up to its region, if neither operands nor a dictionary
follow that would belong to it. -/
theorem parseOperation_complete {s : Statement} (h : IsStatement k s) (hl : tokens l = k)
    (hplain : s.hasRegion = false) (hfits : s.FitsAfter defined)
    (hparen : first? rest ≠ some (.mark .leftParen)) (hdict : startsDictionary rest = false)
    (hts : ts = l ++ rest) :
    ∃ hlt, parseOperation size defined ts = .ok ⟨s.operation, rest, hlt⟩ := by
  cases h with
  | @mk rs os as result operands bindings name hasRegion hr ha hd =>
      obtain ⟨lr, l₁, rfl, hlr, hl₁⟩ := List.map_eq_append_iff.1 hl
      obtain ⟨⟨_, start, stop⟩, l₂, rfl, rfl, hl₂⟩ := List.map_eq_cons_iff.1 hl₁
      obtain ⟨lo, la, rfl, hlo, hla⟩ := List.map_eq_append_iff.1 hl₂
      obtain rfl : ts = lr ++ ⟨.ident name, start, stop⟩ :: (lo ++ (la ++ rest)) := by
        simpa using hts
      obtain ⟨_, hresult⟩ := parseResult_complete size hr hlr
        (show Located.token ⟨.ident name, start, stop⟩ = _ from rfl)
        (show _ = lr ++ _ :: (lo ++ (la ++ rest)) from rfl)
      have hparen' : first? (la ++ rest) ≠ some (.mark .leftParen) := by
        cases hd with
        | absent => simpa [List.map_eq_nil_iff.1 hla] using hparen
        | present _ =>
            obtain ⟨b, la', rfl, hb, -⟩ := List.map_eq_cons_iff.1 hla
            simp [first?, hb]
      obtain ⟨_, harguments⟩ := parseArguments_complete size defined ha
        hlo hfits.uses hparen' rfl
      obtain ⟨_, hdictionary⟩ := parseDictionary_complete size hd hla hdict rfl
      refine ⟨by simp; omega, ?_⟩
      unfold parseOperation
      simp only [hresult, harguments, hdictionary]
      cases result with
      | none => simp [Statement.operation, show hasRegion = false from hplain]
      | some v =>
          simp [Statement.operation, show hasRegion = false from hplain, hfits.defines v rfl]

/-- What follows a statement without a region starts the next statement or closes the block. -/
theorem IsBlock.first? {c : List Located} {inBraces : Bool} {ops : Forest Statement}
    (h : IsBlock k ops) (hl : tokens l = k) (hc : tokens c = closing inBraces)
    (hrest : inBraces = false → rest = []) {m : Mark}
    (hm : first? (l ++ (c ++ rest)) = some (.mark m)) : m = .rightBrace := by
  rcases h.head with rfl | ⟨t, k', rfl, ht⟩
  · obtain rfl := List.map_eq_nil_iff.1 hl
    cases inBraces with
    | false =>
        obtain rfl := List.map_eq_nil_iff.1 hc
        simp [hrest rfl, Source.first?] at hm
    | true =>
        obtain ⟨u, rfl, hu⟩ := List.map_eq_singleton_iff.1 hc
        simpa [Source.first?, hu, eq_comm] using hm
  · obtain ⟨u, l', rfl, rfl, -⟩ := List.map_eq_cons_iff.1 hl
    exact absurd (by simpa [Source.first?] using hm) (ht m)

/-- At the start of a statement a block is neither closed nor at its end. -/
theorem IsStatement.not_closing {s : Statement} (h : IsStatement k s) (hl : tokens l = k)
    (inBraces : Bool) (more : List Located) :
    ¬(inBraces = true ∧ first? (l ++ more) = some (.mark .rightBrace)) ∧ l ++ more ≠ [] := by
  obtain ⟨t, k', rfl, ht⟩ := h.head
  obtain ⟨w, l', rfl, rfl, -⟩ := List.map_eq_cons_iff.1 hl
  exact ⟨fun hw => ht _ (by simpa [first?] using hw.2), by simp⟩

/-- A dictionary begins with a brace. -/
theorem first?_of_startsDictionary (h : startsDictionary ts = true) :
    first? ts = some (.mark .leftBrace) := by
  obtain ⟨b, k, e, more, key, rfl, hb, -, -⟩ := startsDictionary_iff.1 h
  simp [first?, hb]

/-- A brace in front of a block does not start a dictionary. -/
theorem IsBlock.not_startsDictionary {b e : Located} {ops : Forest Statement} (h : IsBlock k ops)
    (hl : tokens l = k) (he : e.token = .mark .rightBrace) (more : List Located) :
    startsDictionary (b :: (l ++ e :: more)) = false := by
  rw [Bool.eq_false_iff]
  intro hm
  obtain ⟨_, u, v, after, key, heq, -, hu, hv⟩ := startsDictionary_iff.1 hm
  have htokens := congrArg tokens (List.cons.inj heq).2
  exact h.ne_binding (tokens more) key (tokens after) (by simpa [hl, he, hu, hv] using htokens)

/-- A block whose statements fit one after the other is read together with what closes it. -/
theorem parseBlock_complete {c : List Located} {inBraces : Bool} {ops : Forest Statement}
    (h : IsBlock k ops) (hl : tokens l = k) (hc : tokens c = closing inBraces)
    (hrest : inBraces = false → rest = [])
    (hscope : WellScoped defined ops.preorder) (hts : ts = l ++ (c ++ rest)) :
    ∃ hle, parseBlock size inBraces defined ts =
      .ok ⟨⟨ops.map Statement.operation, definedAfter defined ops.preorder⟩, rest, hle⟩ := by
  induction h generalizing ts rest l c defined inBraces with
  | nil =>
      obtain rfl := List.map_eq_nil_iff.1 hl
      cases inBraces with
      | false =>
          obtain rfl := List.map_eq_nil_iff.1 hc
          obtain rfl := hrest rfl
          obtain rfl : ts = [] := hts
          refine ⟨Nat.le_refl _, ?_⟩
          unfold parseBlock
          simp [first?, Forest.map, definedAfter, Forest.preorder]
      | true =>
          obtain ⟨u, rfl, hu⟩ := List.map_eq_singleton_iff.1 hc
          obtain rfl : ts = u :: rest := hts
          refine ⟨by simp, ?_⟩
          unfold parseBlock
          simp [first?, hu, Forest.map, definedAfter, Forest.preorder]
  | @plain ks ku s later hs hplain hblock ih =>
      obtain ⟨ls, lu, rfl, hls, hlu⟩ := List.map_eq_append_iff.1 hl
      obtain rfl : ts = ls ++ (lu ++ (c ++ rest)) := by simpa using hts
      obtain ⟨hfits, hlater⟩ := hscope
      obtain ⟨hopen, hne⟩ := hs.not_closing hls inBraces (lu ++ (c ++ rest))
      have hnext : ∀ {m}, first? (lu ++ (c ++ rest)) = some (.mark m) → m = .rightBrace :=
        fun hm => hblock.first? hlu hc hrest hm
      have hparen : first? (lu ++ (c ++ rest)) ≠ some (.mark .leftParen) :=
        fun hm => absurd (hnext hm) (by decide)
      have hbrace : first? (lu ++ (c ++ rest)) ≠ some (.mark .leftBrace) :=
        fun hm => absurd (hnext hm) (by decide)
      have hdict : startsDictionary (lu ++ (c ++ rest)) = false := by
        rw [Bool.eq_false_iff]
        exact fun hm => hbrace (first?_of_startsDictionary hm)
      obtain ⟨hlt, hop⟩ := parseOperation_complete size defined hs hls
        hplain hfits hparen hdict rfl
      obtain ⟨hle, hparse⟩ := ih _ hlu hc hrest hlater
        (show lu ++ (c ++ rest) = _ from rfl)
      refine ⟨by simp; omega, ?_⟩
      unfold parseBlock
      simp only [if_neg hopen, if_neg hne, hop, if_neg hbrace, hparse]
      rfl
  | @region ks ki ku s inner later hs hregion hinner hblock ihinner ihlater =>
      obtain ⟨ls, l₁, rfl, hls, hl₁⟩ := List.map_eq_append_iff.1 hl
      obtain ⟨b, l₂, rfl, hb, hl₂⟩ := List.map_eq_cons_iff.1 hl₁
      obtain ⟨li, l₃, rfl, hli, hl₃⟩ := List.map_eq_append_iff.1 hl₂
      obtain ⟨e, lu, rfl, he, hlu⟩ := List.map_eq_cons_iff.1 hl₃
      obtain rfl : ts = ls ++ b :: (li ++ ([e] ++ (lu ++ (c ++ rest)))) := by simpa using hts
      obtain ⟨hfits, hscope'⟩ := hscope
      obtain ⟨hinside, hlater⟩ := wellScoped_append.1 hscope'
      obtain ⟨hopen, hne⟩ := hs.not_closing hls inBraces
        (b :: (li ++ ([e] ++ (lu ++ (c ++ rest)))))
      have hparen : first? (b :: (li ++ ([e] ++ (lu ++ (c ++ rest))))) ≠
          some (.mark .leftParen) := by simp [first?, hb]
      have hbrace : first? (b :: (li ++ ([e] ++ (lu ++ (c ++ rest))))) =
          some (.mark .leftBrace) := by simp [first?, hb]
      have hdict : startsDictionary (b :: (li ++ ([e] ++ (lu ++ (c ++ rest))))) = false :=
        hinner.not_startsDictionary hli he _
      obtain ⟨hlt, hop⟩ := parseOperation_complete size defined
        (hs.withRegion false) hls rfl (hfits.withRegion false) hparen hdict rfl
      obtain ⟨hle, hparse⟩ := ihinner _ hli
        (show tokens [e] = closing true by simp [closing, he]) (by simp) hinside
        (show li ++ ([e] ++ (lu ++ (c ++ rest))) = _ from rfl)
      obtain ⟨hle', hparse'⟩ := ihlater _ hlu hc hrest hlater
        (show lu ++ (c ++ rest) = _ from rfl)
      refine ⟨by simp; omega, ?_⟩
      unfold parseBlock
      have hdefine : define (Statement.operation { s with hasRegion := false }) defined =
          define s.operation defined := rfl
      simp only [if_neg hopen, if_neg hne, hop, hbrace, if_true, List.tail_cons, hdefine, hparse,
        hparse']
      simp [Forest.map, Forest.preorder, Statement.operation, hregion, definedAfter]

end Source

end TileFlow
