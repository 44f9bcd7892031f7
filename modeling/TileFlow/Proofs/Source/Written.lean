import TileFlow.Proofs.Program.Order
import TileFlow.Proofs.Source.RoundTrip

/-!
# Programs that can be written

An operation can be written when its name, its values, its operands and its attributes are made of
tokens that the lexer can make. A program of such operations is loaded from its written form when
only operations with a region have others below them, no value is defined twice and every value is
defined before it is used. What the parser makes of a source is such a program.

## Main definitions

* `Attribute.IsWritten`, `Operation.IsWritten`: what can be written with tokens.
* `Program.IsScoped`: every value is defined before it is used.
* `Program.Loadable`: the programs that can be written and loaded.

## Main results

* `Program.Loadable.reload`: a program that can be written is loaded again.
* `loadable_of_parse`: what the parser makes of a source can be written.
-/

namespace TileFlow

open Source

/-! ### Tokens -/

/-- Whether a text is one identifier. -/
def isIdentText (s : String) : Bool :=
  match s.toList with
  | [] => false
  | c :: rest => isIdentStart c && identTail rest == rest.length

/-- Which texts can be written as identifiers. -/
theorem Source.Token.isLexeme_ident_iff {s : String} :
    Token.IsLexeme (.ident s) ↔ isIdentText s = true := by
  rw [Token.IsLexeme, isIdentText]
  rcases s.toList with _ | ⟨c, rest⟩
  · simp
  · constructor
    · rintro ⟨d, rest', heq, hd, hrest⟩
      cases heq
      simp [hd, hrest]
    · intro h
      simp only [Bool.and_eq_true, beq_iff_eq] at h
      exact ⟨c, rest, rfl, h.1, h.2⟩

instance : DecidablePred Token.IsLexeme := fun t =>
  match t with
  | .value name =>
    decidable_of_iff (name.toList ≠ [] ∧ name.toList.all isWordChar = true)
      (and_congr Iff.rfl List.all_eq_true)
  | .symbol name =>
    decidable_of_iff (name.toList ≠ [] ∧ name.toList.all isSymbolChar = true)
      (and_congr Iff.rfl List.all_eq_true)
  | .int n => inferInstanceAs (Decidable (Integer.Fits n))
  | .str _ => .isTrue trivial
  | .ident _ => decidable_of_iff _ Token.isLexeme_ident_iff.symm
  | .mark _ => .isTrue trivial

/-- The name of a value followed by more characters of its class is the name of a value. -/
theorem Source.Token.isLexeme_value_append {s t : String} (hs : Token.IsLexeme (.value s))
    (ht : ∀ c ∈ t.toList, isWordChar c = true) : Token.IsLexeme (.value (s ++ t)) := by
  obtain ⟨hne, hs⟩ := hs
  refine ⟨by simp [hne], fun c hc => ?_⟩
  rw [String.toList_append, List.mem_append] at hc
  exact hc.elim (hs c) (ht c)

/-- The name of a value can be that of a symbol. -/
theorem Source.Token.isLexeme_symbol_of_value {s : String} (h : Token.IsLexeme (.value s)) :
    Token.IsLexeme (.symbol s) :=
  ⟨h.1, fun c hc => by simp [isSymbolChar, h.2 c hc]⟩

/-- The digits of a number can be in the name of a value. -/
theorem isWordChar_of_mem_repr {n : Nat} {c : Char} (hc : c ∈ (toString n).toList) :
    isWordChar c = true := by
  have hdigit : c.isDigit = true := by
    refine Nat.isDigit_of_mem_toDigits (by decide) (by decide) (b := 10) (n := n) ?_
    rwa [← Nat.toList_repr]
  simp [isWordChar, Char.isAlphanum, hdigit]

/-- A value name that is made from the name of a value is one. -/
theorem Program.isLexeme_freshValue {base : String} (p : Program)
    (h : Token.IsLexeme (.value base)) : Token.IsLexeme (.value (p.freshValue base)) := by
  rw [freshValue]
  rcases freshName_eq_or p.definedValues base with hname | ⟨n, hname⟩
  · rwa [hname]
  · rw [hname, numbered]
    exact Token.isLexeme_value_append
      (Token.isLexeme_value_append h (List.all_eq_true.1 (by decide)))
      fun _ hc => isWordChar_of_mem_repr hc

/-! ### Attributes and operands -/

/-- Whether an attribute can be written with tokens. -/
def Attribute.IsWritten (a : Attribute) : Prop :=
  ∃ k, IsAttribute k a ∧ ∀ t ∈ k, t.IsLexeme

/-- Whether an operand can be written with tokens. -/
def Attribute.IsWrittenOperand (a : Attribute) : Prop :=
  ∃ k, IsOperand k a ∧ ∀ t ∈ k, t.IsLexeme

namespace Attribute

/-- An integer in range can be written. -/
theorem isWritten_int {n : Int} (h : Integer.Fits n) : (int n).IsWritten :=
  ⟨_, .int n, List.forall_mem_singleton.2 h⟩

/-- Every text can be written in quotes. -/
theorem isWritten_str (s : String) : (str s).IsWritten :=
  ⟨_, .str s, List.forall_mem_singleton.2 trivial⟩

/-- An identifier can be written. -/
theorem isWritten_ident {s : String} (h : Token.IsLexeme (.ident s)) : (ident s).IsWritten :=
  ⟨_, .ident s, List.forall_mem_singleton.2 h⟩

/-- A symbol can be written. -/
theorem isWritten_symbol {s : String} (h : Token.IsLexeme (.symbol s)) : (symbol s).IsWritten :=
  ⟨_, .symbol s, List.forall_mem_singleton.2 h⟩

/-- A value can be written as an operand. -/
theorem isWrittenOperand_value {s : String} (h : Token.IsLexeme (.value s)) :
    (value s).IsWrittenOperand :=
  ⟨_, .value s, List.forall_mem_singleton.2 h⟩

/-- What can be written as an attribute can be written as an operand. -/
theorem IsWritten.operand {a : Attribute} (h : a.IsWritten) : a.IsWrittenOperand := by
  obtain ⟨k, hk, hlexeme⟩ := h
  exact ⟨k, .attr hk, hlexeme⟩

/-- An integer that can be written is in range. -/
theorem IsWritten.fits {n : Int} (h : (int n).IsWritten) : Integer.Fits n := by
  obtain ⟨k, hk, hlexeme⟩ := h
  cases hk
  exact hlexeme (.int n) List.mem_cons_self

/-- An integer that can be written as an operand is in range. -/
theorem IsWrittenOperand.fits {n : Int} (h : (int n).IsWrittenOperand) : Integer.Fits n := by
  obtain ⟨k, hk, hlexeme⟩ := h
  cases hk with
  | attr hk => exact IsWritten.fits ⟨k, hk, hlexeme⟩

/-- A value that can be written is a lexeme. -/
theorem IsWrittenOperand.value {s : String} (h : (Attribute.value s).IsWrittenOperand) :
    Token.IsLexeme (.value s) := by
  obtain ⟨k, hk, hlexeme⟩ := h
  cases hk with
  | value => exact hlexeme (.value s) List.mem_cons_self
  | attr hk => cases hk

/-- A symbol that can be written is a lexeme. -/
theorem IsWrittenOperand.symbol {s : String} (h : (Attribute.symbol s).IsWrittenOperand) :
    Token.IsLexeme (.symbol s) := by
  obtain ⟨k, hk, hlexeme⟩ := h
  cases hk with
  | attr hk =>
      cases hk
      exact hlexeme (.symbol s) List.mem_cons_self

end Attribute

/-! ### Operations -/

/-- Whether an operation can be written with tokens, up to its region. -/
structure Operation.IsWritten (op : Operation) : Prop where
  name : Token.IsLexeme (.ident op.name)
  result : ∀ v, op.result = some v → Token.IsLexeme (.value v)
  operands : ∀ a ∈ op.operands, a.IsWrittenOperand
  attributes : ∀ e ∈ op.attributes.entries, Token.IsLexeme (.ident e.1) ∧ e.2.IsWritten

namespace Operation

variable {op : Operation}

/-- What can be written is read off the header. -/
theorem IsWritten.of_sameHeader {op' : Operation} (h : op.IsWritten) (hop : op.SameHeader op') :
    op'.IsWritten where
  name := hop.name ▸ h.name
  result := hop.result ▸ h.result
  operands := hop.operands ▸ h.operands
  attributes := hop.attributes ▸ h.attributes

/-- The values among the operands can be written. -/
theorem IsWritten.operandValue? (h : op.IsWritten) {i : Nat} {v : String}
    (hv : op.operandValue? i = some v) : Token.IsLexeme (.value v) := by
  obtain ⟨a, ha, hv⟩ := Option.bind_eq_some_iff.1 hv
  cases a <;> cases hv
  exact (h.operands _ (List.mem_of_getElem? ha)).value

/-- The integers among the operands are in range. -/
theorem IsWritten.operandInt? (h : op.IsWritten) {i : Nat} {n : Int}
    (hn : op.operandInt? i = some n) : Integer.Fits n := by
  obtain ⟨a, ha, hn⟩ := Option.bind_eq_some_iff.1 hn
  cases a <;> cases hn
  exact (h.operands _ (List.mem_of_getElem? ha)).fits

/-- The symbols among the operands can be written. -/
theorem IsWritten.operandSymbol? (h : op.IsWritten) {i : Nat} {s : String}
    (hs : op.operandSymbol? i = some s) : Token.IsLexeme (.symbol s) := by
  obtain ⟨a, ha, hs⟩ := Option.bind_eq_some_iff.1 hs
  cases a <;> cases hs
  exact (h.operands _ (List.mem_of_getElem? ha)).symbol

/-- The value under a name is one of the entries. -/
theorem mem_entries_of_attr? {key : String} {a : Attribute} (h : op.attr? key = some a) :
    (key, a) ∈ op.attributes.entries := by
  rw [attr?, Dictionary.get?, Option.map_eq_some_iff] at h
  obtain ⟨e, he, rfl⟩ := h
  have hkey := List.find?_some he
  obtain rfl : e.1 = key := beq_iff_eq.1 hkey
  exact List.mem_of_find?_eq_some he

/-- The integers among the attributes are in range. -/
theorem IsWritten.intAttr? (h : op.IsWritten) {key : String} {n : Int}
    (hn : op.intAttr? key = some n) : Integer.Fits n := by
  obtain ⟨a, ha, hn⟩ := Option.bind_eq_some_iff.1 hn
  cases a <;> cases hn
  exact (h.attributes _ (mem_entries_of_attr? ha)).2.fits

/-- Setting an attribute that can be written keeps the operation so. -/
theorem IsWritten.withAttr (h : op.IsWritten) {key : String} {a : Attribute}
    (hkey : Token.IsLexeme (.ident key)) (ha : a.IsWritten) : (op.withAttr key a).IsWritten where
  name := h.name
  result := h.result
  operands := h.operands
  attributes e he := by
    rcases Dictionary.mem_insertEntry he with rfl | he
    · exact ⟨hkey, ha⟩
    · exact h.attributes e he

end Operation

/-! ### Statements -/

namespace Source

variable {α : Type} {k : List Token}

/-- The statement of an operation, whose bindings are the entries of its attributes. -/
def Statement.ofOperation (op : Operation) : Statement where
  result := op.result
  name := op.name
  operands := op.operands
  bindings := op.attributes.entries
  hasRegion := op.hasRegion

/-- The statement of an operation describes it. -/
@[simp] theorem Statement.operation_ofOperation (op : Operation) :
    (Statement.ofOperation op).operation = op := by
  cases op
  simp [ofOperation, operation, Dictionary.ofList_entries]

/-- Items that have tokens have them together, with commas between them. -/
theorem exists_commaSeparated {Item : List Token → α → Prop} {xs : List α} (hne : xs ≠ [])
    (h : ∀ a ∈ xs, ∃ k, Item k a ∧ ∀ t ∈ k, t.IsLexeme) :
    ∃ k, CommaSeparated Item k xs ∧ ∀ t ∈ k, t.IsLexeme := by
  induction xs with
  | nil => exact absurd rfl hne
  | cons a xs ih =>
      obtain ⟨k, hk, hlexeme⟩ := h a List.mem_cons_self
      cases xs with
      | nil => exact ⟨k, .single hk, hlexeme⟩
      | cons b xs =>
          obtain ⟨k', hk', hlexeme'⟩ := ih (by simp) fun c hc => h c (List.mem_cons_of_mem _ hc)
          refine ⟨_, .cons hk hk', fun t ht => ?_⟩
          rcases List.mem_append.1 ht with ht | ht
          · exact hlexeme t ht
          · rcases List.mem_cons.1 ht with rfl | ht
            · trivial
            · exact hlexeme' t ht

/-- Brackets around tokens are tokens. -/
theorem isLexeme_bracketed {m m' : Mark} (h : ∀ t ∈ k, t.IsLexeme) :
    ∀ t ∈ .mark m :: (k ++ [.mark m']), t.IsLexeme := by
  intro t ht
  rcases List.mem_cons.1 ht with rfl | ht
  · trivial
  · rcases List.mem_append.1 ht with ht | ht
    · exact h t ht
    · obtain rfl := List.mem_singleton.1 ht
      trivial

/-- Bindings that can be written have a dictionary. -/
theorem exists_isDictionary {bindings : List (String × Attribute)}
    (h : ∀ e ∈ bindings, Token.IsLexeme (.ident e.1) ∧ e.2.IsWritten) :
    ∃ k, IsDictionary k bindings ∧ ∀ t ∈ k, t.IsLexeme := by
  by_cases hne : bindings = []
  · subst hne
    exact ⟨[], .absent, fun _ ht => absurd ht List.not_mem_nil⟩
  · have hcommas : ∃ k, CommaSeparated IsBinding k bindings ∧ ∀ t ∈ k, t.IsLexeme :=
      exists_commaSeparated hne fun e he => by
        obtain ⟨hkey, k, hk, hlexeme⟩ := h e he
        refine ⟨_, .mk e.1 hk, fun t ht => ?_⟩
        rcases List.mem_cons.1 ht with rfl | ht
        · exact hkey
        · rcases List.mem_cons.1 ht with rfl | ht
          · trivial
          · exact hlexeme t ht
    obtain ⟨k, hk, hlexeme⟩ := hcommas
    exact ⟨_, .present hk, isLexeme_bracketed hlexeme⟩

/-- Operands that can be written have a list of arguments. -/
theorem exists_isArguments {operands : List Attribute}
    (h : ∀ a ∈ operands, a.IsWrittenOperand) :
    ∃ k, IsArguments k operands ∧ ∀ t ∈ k, t.IsLexeme := by
  by_cases hne : operands = []
  · subst hne
    exact ⟨[], .absent, fun _ ht => absurd ht List.not_mem_nil⟩
  · obtain ⟨k, hk, hlexeme⟩ := exists_commaSeparated hne h
    exact ⟨_, .present hk, isLexeme_bracketed hlexeme⟩

/-- A result that can be written has a text. -/
theorem exists_isResult {result : Option String}
    (h : ∀ v, result = some v → Token.IsLexeme (.value v)) :
    ∃ k, IsResult k result ∧ ∀ t ∈ k, t.IsLexeme := by
  cases result with
  | none => exact ⟨[], .absent, fun _ ht => absurd ht List.not_mem_nil⟩
  | some v =>
      refine ⟨_, .present v, fun t ht => ?_⟩
      rcases List.mem_cons.1 ht with rfl | ht
      · exact h v rfl
      · obtain rfl := List.mem_singleton.1 ht
        trivial

/-- An operation that can be written is a statement. -/
theorem exists_isStatement {op : Operation} (h : op.IsWritten) :
    ∃ k, IsStatement k (.ofOperation op) ∧ ∀ t ∈ k, t.IsLexeme := by
  obtain ⟨rs, hrs, hresult⟩ := exists_isResult h.result
  obtain ⟨os, hos, hoperands⟩ := exists_isArguments h.operands
  obtain ⟨as, has, hattributes⟩ := exists_isDictionary h.attributes
  refine ⟨_, .mk op.name op.hasRegion hrs hos has, fun t ht => ?_⟩
  rcases List.mem_append.1 ht with ht | ht
  · exact hresult t ht
  · rcases List.mem_cons.1 ht with rfl | ht
    · exact h.name
    · exact (List.mem_append.1 ht).elim (hoperands t) (hattributes t)

/-- The bindings of a dictionary can be written. -/
theorem IsDictionary.isWritten {bindings : List (String × Attribute)} (h : IsDictionary k bindings)
    (hk : ∀ t ∈ k, t.IsLexeme) :
    ∀ e ∈ bindings, Token.IsLexeme (.ident e.1) ∧ e.2.IsWritten := by
  intro e he
  cases h with
  | absent => cases he
  | present hbindings =>
      obtain ⟨k', hk', hsub⟩ := hbindings.exists_item he
      have hlexeme : ∀ t ∈ k', t.IsLexeme := fun t ht => hk t (by simp [hsub ht])
      cases hk' with
      | mk key ha =>
          exact ⟨hlexeme _ List.mem_cons_self, _, ha, fun t ht => hlexeme t (by simp [ht])⟩

/-- What a statement describes can be written. -/
theorem IsStatement.isWritten {s : Statement} (h : IsStatement k s) (hk : ∀ t ∈ k, t.IsLexeme) :
    s.operation.IsWritten := by
  cases h with
  | mk name hasRegion hr ha hd =>
      refine ⟨hk (.ident name) (by simp), fun v hv => ?_, fun a hmem => ?_, fun e he => ?_⟩
      · cases hr with
        | absent => cases hv
        | present =>
            cases hv
            exact hk (.value v) (by simp)
      · cases ha with
        | absent => cases hmem
        | empty => cases hmem
        | present hoperands =>
            obtain ⟨k', hk', hsub⟩ := hoperands.exists_item hmem
            exact ⟨k', hk', fun t ht => hk t (by simp [hsub ht])⟩
      · exact hd.isWritten (fun t ht => hk t (by simp [ht])) e (Dictionary.mem_of_mem_ofList he)

end Source

/-! ### Deciding what can be written -/

namespace Attribute

/-- An identifier that can be written is a lexeme. -/
theorem IsWritten.ident {s : String} (h : (Attribute.ident s).IsWritten) :
    Token.IsLexeme (.ident s) := by
  obtain ⟨k, hk, hlexeme⟩ := h
  cases hk
  exact hlexeme (.ident s) List.mem_cons_self

/-- A value is no attribute. -/
theorem not_isWritten_value (s : String) : ¬ (value s).IsWritten := by
  rintro ⟨k, hk, -⟩
  cases hk

/-- An array can be written exactly if its items can. -/
theorem isWritten_array_iff {items : List Attribute} :
    (array items).IsWritten ↔ ∀ a ∈ items, a.IsWritten := by
  constructor
  · rintro ⟨k, hk, hlexeme⟩ a ha
    cases hk with
    | emptyArray => cases ha
    | array hitems =>
        obtain ⟨k', hk', hsub⟩ := hitems.exists_item ha
        exact ⟨k', hk', fun t ht => hlexeme t (by simp [hsub ht])⟩
  · intro h
    by_cases hne : items = []
    · subst hne
      exact ⟨_, .emptyArray, isLexeme_bracketed (k := []) (by simp)⟩
    · obtain ⟨k, hk, hlexeme⟩ := exists_commaSeparated hne h
      exact ⟨_, .array hk, isLexeme_bracketed hlexeme⟩

/-- Apart from values, operands and attributes are written alike. -/
theorem isWrittenOperand_iff {a : Attribute} (h : ∀ s, a ≠ .value s) :
    a.IsWrittenOperand ↔ a.IsWritten := by
  constructor
  · rintro ⟨k, hk, hlexeme⟩
    cases hk with
    | value s => exact absurd rfl (h s)
    | attr hk => exact ⟨k, hk, hlexeme⟩
  · exact IsWritten.operand

mutual

/-- Whether an attribute can be written is decidable. -/
def decIsWritten : (a : Attribute) → Decidable a.IsWritten
  | .int n => decidable_of_iff (Integer.Fits n) ⟨isWritten_int, IsWritten.fits⟩
  | .str s => .isTrue (isWritten_str s)
  | .ident s => decidable_of_iff (Token.IsLexeme (.ident s)) ⟨isWritten_ident, IsWritten.ident⟩
  | .symbol s => decidable_of_iff (Token.IsLexeme (.symbol s))
      ⟨isWritten_symbol, fun h => h.operand.symbol⟩
  | .value s => .isFalse (not_isWritten_value s)
  | .array items => @decidable_of_iff _ _ isWritten_array_iff.symm (decAllWritten items)

/-- Whether all attributes of a list can be written is decidable. -/
def decAllWritten : (as : List Attribute) → Decidable (∀ a ∈ as, a.IsWritten)
  | [] => .isTrue (by simp)
  | a :: as =>
    @decidable_of_iff _ _ List.forall_mem_cons.symm
      (@instDecidableAnd _ _ (decIsWritten a) (decAllWritten as))

end

instance : DecidablePred IsWritten :=
  decIsWritten

instance : DecidablePred IsWrittenOperand
  | .value _ => decidable_of_iff _ ⟨isWrittenOperand_value, IsWrittenOperand.value⟩
  | .int _ | .str _ | .ident _ | .symbol _ | .array _ =>
    decidable_of_iff _ (isWrittenOperand_iff (by simp)).symm

end Attribute

instance (op : Operation) : Decidable op.IsWritten :=
  decidable_of_iff (Token.IsLexeme (.ident op.name) ∧
      (∀ v ∈ op.result, Token.IsLexeme (.value v)) ∧ (∀ a ∈ op.operands, a.IsWrittenOperand) ∧
      ∀ e ∈ op.attributes.entries, Token.IsLexeme (.ident e.1) ∧ e.2.IsWritten)
    ⟨fun h => ⟨h.1, h.2.1, h.2.2.1, h.2.2.2⟩,
      fun h => ⟨h.name, h.result, h.operands, h.attributes⟩⟩

/-! ### Blocks -/

/-- Whether only operations with a region have others below them. -/
def Forest.Regions : Forest Operation → Prop
  | .nil => True
  | .cons op children rest =>
    (op.hasRegion = false → children = .nil) ∧ children.Regions ∧ rest.Regions

namespace Source

variable {k : List Token}

/-- A forest of operations that can be written is a block. -/
theorem exists_isBlock {ops : Forest Operation} (hregions : ops.Regions)
    (h : ∀ op ∈ ops.preorder, op.IsWritten) :
    ∃ k, IsBlock k (ops.map Statement.ofOperation) ∧ ∀ t ∈ k, t.IsLexeme := by
  induction ops with
  | nil => exact ⟨[], .nil, fun _ ht => absurd ht List.not_mem_nil⟩
  | cons op inner later ihinner ihlater =>
      obtain ⟨hregion, hinner, hlater⟩ := hregions
      obtain ⟨ks, hks, hstatement⟩ := exists_isStatement (h op (by simp))
      obtain ⟨ku, hku, hrest⟩ := ihlater hlater fun op' hop' => h op' (by simp [hop'])
      cases hop : op.hasRegion with
      | false =>
          obtain rfl := hregion hop
          refine ⟨ks ++ ku, .plain hks hop hku, fun t ht => ?_⟩
          exact (List.mem_append.1 ht).elim (hstatement t) (hrest t)
      | true =>
          obtain ⟨kv, hkv, hbelow⟩ := ihinner hinner fun op' hop' => h op' (by simp [hop'])
          refine ⟨_, .region hks hop hkv hku, fun t ht => ?_⟩
          simp only [List.mem_append, List.mem_cons] at ht
          rcases ht with ht | rfl | ht | rfl | ht
          · exact hstatement t ht
          · trivial
          · exact hbelow t ht
          · trivial
          · exact hrest t ht

/-- What a block describes can be written, and only operations with a region have others below
them. -/
theorem IsBlock.isWritten {ops : Forest Statement} (h : IsBlock k ops) (hk : ∀ t ∈ k, t.IsLexeme) :
    (ops.map Statement.operation).Regions ∧
      ∀ op ∈ (ops.map Statement.operation).preorder, op.IsWritten := by
  induction h with
  | nil => exact ⟨trivial, fun _ hop => absurd hop List.not_mem_nil⟩
  | plain hs _ _ ih =>
      obtain ⟨hregions, hwritten⟩ := ih fun t ht => hk t (by simp [ht])
      refine ⟨⟨fun _ => rfl, trivial, hregions⟩, fun op hop => ?_⟩
      rcases List.mem_cons.1 hop with rfl | hop
      · exact hs.isWritten fun t ht => hk t (by simp [ht])
      · exact hwritten op (by simpa using hop)
  | region hs hregion _ _ ihinner ihlater =>
      obtain ⟨hinner, hbelow⟩ := ihinner fun t ht => hk t (by simp [ht])
      obtain ⟨hlater, hrest⟩ := ihlater fun t ht => hk t (by simp [ht])
      refine ⟨⟨fun hnone => ?_, hinner, hlater⟩, fun op hop => ?_⟩
      · rw [Statement.operation, hregion] at hnone
        cases hnone
      · rcases List.mem_cons.1 hop with rfl | hop
        · exact hs.isWritten fun t ht => hk t (by simp [ht])
        · exact (List.mem_append.1 hop).elim (hbelow op) (hrest op)

end Source

/-! ### Programs -/

namespace Program

variable {p : Program}

/-- Whether every value that an operation of the body uses is the result of one that precedes
it. -/
def IsScoped (p : Program) : Prop :=
  ∀ id ∈ p.walk, ∀ v, .value v ∈ (p.op id).operands → p.KnownAt id v

instance : Decidable p.IsScoped :=
  decidable_of_iff
    (∀ id ∈ p.walk, ∀ a ∈ (p.op id).operands, ∀ v ∈ a.value?, p.KnownAt id v)
    ⟨fun h id hid v hv => h id hid _ hv v rfl, fun h id hid a ha v hv => by
      cases a <;> cases hv
      exact h id hid v ha⟩

/-- A program that can be written and loaded: its operations and its own attributes can be written
with tokens, only operations with a region have others below them, no value is defined twice and
every value is defined before it is used. -/
structure Loadable (p : Program) : Prop where
  wellFormed : p.WellFormed
  values : p.definedValues.Nodup
  scope : p.IsScoped
  written : ∀ id ∈ p.walk, (p.op id).IsWritten
  regions : ∀ id ∈ p.walk, (p.op id).hasRegion = false → p.walkIn id = []
  attributes : ∀ e ∈ p.attributes.entries, Token.IsLexeme (.ident e.1) ∧ e.2.IsWritten

/-- Which operations of a forest own a region is told by what is below each of them. -/
theorem regions_map_iff {f : Forest OpId} (hf : f.Distinct) : (f.map p.op).Regions ↔
    ∀ id g, f.below? id = some g → (p.op id).hasRegion = false → g = .nil := by
  induction f with
  | nil => exact ⟨fun _ _ _ hg => (nomatch hg), fun _ => trivial⟩
  | cons a children rest ihc ihr =>
      obtain ⟨hac, har, hc, hr, hdisjoint⟩ := Forest.distinct_cons.1 hf
      have hmap : children.map p.op = .nil ↔ children = .nil := by
        cases children with
        | nil => exact ⟨fun _ => rfl, fun _ => rfl⟩
        | cons => exact ⟨fun h => (nomatch h), fun h => (nomatch h)⟩
      rw [Forest.map, Forest.Regions, hmap, ihc hc, ihr hr]
      constructor
      · rintro ⟨hregion, hchildren, hrest⟩ id g hg
        rw [Forest.below?] at hg
        split at hg
        · rename_i heq
          cases heq
          cases hg
          exact hregion
        · rcases Option.or_eq_some_iff.1 hg with hg | ⟨-, hg⟩
          · exact hchildren id g hg
          · exact hrest id g hg
      · refine fun h => ⟨h a children (by rw [Forest.below?, if_pos rfl]), fun id g hg => ?_,
          fun id g hg => ?_⟩
        · have hid := Forest.mem_preorder_of_below? hg
          have hne : a ≠ id := by
            rintro rfl
            exact hac hid
          exact h id g (by rw [Forest.below?, if_neg hne, hg, Option.some_or])
        · have hid := Forest.mem_preorder_of_below? hg
          have hne : a ≠ id := by
            rintro rfl
            exact har hid
          have hnone : children.below? id = none :=
            Forest.below?_eq_none_iff.2 fun hmem => hdisjoint id hmem hid
          exact h id g (by rw [Forest.below?, if_neg hne, hnone, Option.none_or, hg])

/-- What has no region has nothing below it, read off the contents or the program. -/
theorem WellFormed.contents_regions_iff (hp : p.WellFormed) : p.contents.Regions ↔
    ∀ id ∈ p.walk, (p.op id).hasRegion = false → p.walkIn id = [] := by
  rw [contents, regions_map_iff hp.distinct]
  constructor
  · intro h id hid hregion
    obtain ⟨g, hg, hbelow⟩ := exists_below hid
    rw [walkIn, hbelow, h id g hg hregion]
    rfl
  · intro h id g hg hregion
    have hnil := h id (Forest.mem_preorder_of_below? hg) hregion
    rw [walkIn, below_of_below? hg] at hnil
    cases g with
    | nil => rfl
    | cons a c r => cases hnil

/-- One operation precedes another when it stands at an earlier place. -/
theorem precedes_iff_getElem? {a b : OpId} {i : Nat} (hp : p.walk.Nodup)
    (hb : p.walk[i]? = some b) :
    p.Precedes a b ↔ ∃ j < i, p.walk[j]? = some a := by
  constructor
  · intro h
    obtain ⟨A, B, hwalk, ha⟩ := pair_sublist_iff.1 h
    obtain ⟨j, hj, hja⟩ := List.mem_iff_getElem.1 ha
    have hplace : p.walk[A.length]? = some b := by simp [hwalk]
    obtain ⟨hlt, -⟩ := List.getElem?_eq_some_iff.1 hb
    obtain rfl : i = A.length := (List.getElem?_inj hlt hp).1 (hb.trans hplace.symm)
    exact ⟨j, hj, by rw [hwalk, List.getElem?_append_left hj, List.getElem?_eq_getElem hj, hja]⟩
  · rintro ⟨j, hj, ha⟩
    obtain ⟨hlt, hi⟩ := List.getElem?_eq_some_iff.1 hb
    refine pair_sublist_iff.2 ⟨p.walk.take i, p.walk.drop (i + 1), ?_, ?_⟩
    · rw [← hi, ← List.drop_eq_getElem_cons hlt, List.take_append_drop]
    · exact List.mem_of_getElem? (i := j) (by rw [List.getElem?_take_of_lt hj, ha])

/-- What the statements of a program say about its values. -/
theorem wellScoped_contents_iff (hp : p.WellFormed) :
    WellScoped [] (p.contents.map Statement.ofOperation).preorder ↔
      p.definedValues.Nodup ∧ p.IsScoped := by
  have hpreorder : (p.contents.map Statement.ofOperation).preorder =
      p.walk.map fun id => .ofOperation (p.op id) := by
    rw [contents, Forest.preorder_map, Forest.preorder_map, List.map_map]
    rfl
  have hplace : ∀ (i : Nat) (s : Statement), (p.contents.map Statement.ofOperation).preorder[i]? =
      some s ↔ ∃ id, p.walk[i]? = some id ∧ Statement.ofOperation (p.op id) = s := fun i s => by
    rw [hpreorder, List.getElem?_map, Option.map_eq_some_iff]
  rw [wellScoped_nil_iff, DefinesOnce, hpreorder, List.filterMap_map]
  refine and_congr Iff.rfl ⟨fun h id hid v hv => ?_, fun h i s hs v hv => ?_⟩
  · obtain ⟨i, hi⟩ := List.mem_iff_getElem?.1 hid
    obtain ⟨j, s, hj, hs, hresult⟩ := h i _ ((hplace i _).2 ⟨id, hi, rfl⟩) v hv
    obtain ⟨d, hd, rfl⟩ := (hplace j s).1 hs
    exact ⟨d, (precedes_iff_getElem? hp.distinct hi).2 ⟨j, hj, hd⟩, hresult⟩
  · obtain ⟨id, hid, rfl⟩ := (hplace i s).1 hs
    obtain ⟨d, hd, hresult⟩ := h id (List.mem_of_getElem? hid) v hv
    obtain ⟨j, hj, hjd⟩ := (precedes_iff_getElem? hp.distinct hid).1 hd
    exact ⟨j, _, hj, (hplace j _).2 ⟨d, hjd, rfl⟩, hresult⟩

/-- What holds of all operations that are met holds of all contents. -/
theorem forall_walk_iff {K : Operation → Prop} :
    (∀ id ∈ p.walk, K (p.op id)) ↔ ∀ op ∈ p.contents.preorder, K op := by
  rw [contents, Forest.preorder_map, List.forall_mem_map]
  rfl

/-- A program of which every operation, every attribute and every region can be written, whatever
its values are. -/
structure IsWritten (p : Program) : Prop where
  wellFormed : p.WellFormed
  written : ∀ id ∈ p.walk, (p.op id).IsWritten
  regions : ∀ id ∈ p.walk, (p.op id).hasRegion = false → p.walkIn id = []
  attributes : ∀ e ∈ p.attributes.entries, Token.IsLexeme (.ident e.1) ∧ e.2.IsWritten

/-- What can be loaded can be written. -/
theorem Loadable.isWritten (hp : p.Loadable) : p.IsWritten :=
  ⟨hp.wellFormed, hp.written, hp.regions, hp.attributes⟩

/-- What is written for such a program is written for a source of the grammar. -/
theorem IsWritten.exists_isSource (hp : p.IsWritten) : ∃ k bindings ops,
    IsSource k bindings ops ∧ (∀ t ∈ k, t.IsLexeme) ∧
      p.attributes = .ofList bindings ∧ p.contents = ops.map Statement.operation ∧
      (WellScoped [] ops.preorder ↔ p.definedValues.Nodup ∧ p.IsScoped) := by
  obtain ⟨kb, hkb, hblock⟩ :=
    exists_isBlock (hp.wellFormed.contents_regions_iff.2 hp.regions) (forall_walk_iff.1 hp.written)
  obtain ⟨ka, hka, hdictionary⟩ := exists_isDictionary hp.attributes
  refine ⟨_, _, _, .wrapped hka hkb, fun t ht => ?_, (Dictionary.ofList_entries _).symm, ?_,
    wellScoped_contents_iff hp.wellFormed⟩
  · simp only [List.mem_cons, List.mem_append, List.not_mem_nil, or_false] at ht
    rcases ht with rfl | ht | rfl | ht | rfl
    · exact ⟨'m', "odule".toList, rfl, rfl, rfl⟩
    · exact hdictionary t ht
    · trivial
    · exact hblock t ht
    · trivial
  · rw [Forest.map_map, contents, Forest.map_map]
    exact Forest.map_congr fun id _ => (Statement.operation_ofOperation (p.op id)).symm

/-- **Loading again.** The written form of a program that can be written and loaded is parsed, and
gives the program with its operations numbered in pre-order and its texts reread. -/
theorem Loadable.reload (hp : p.Loadable) : parse p.print =
    .ok ((ofForest p.attributes p.contents).mapTexts reread) := by
  obtain ⟨k, bindings, ops, hsource, hlexeme, hattributes, hcontents, hscope⟩ :=
    hp.isWritten.exists_isSource
  rw [print, hattributes, hcontents]
  exact hsource.parse_written hlexeme (hscope.2 ⟨hp.values, hp.scope⟩)

/-- The written form of a program that can be written is parsed exactly when no value is defined
twice and every value is defined before it is used. -/
theorem IsWritten.reload_iff (hp : p.IsWritten) : (∃ q, parse p.print = .ok q) ↔ p.Loadable := by
  constructor
  · rintro ⟨q, hq⟩
    obtain ⟨k, bindings, ops, hsource, hlexeme, hattributes, hcontents, hscope⟩ :=
      hp.exists_isSource
    rw [print, hattributes, hcontents] at hq
    obtain ⟨hvalues, hscope⟩ := hscope.1 (hsource.wellScoped_of_parse_written hlexeme hq)
    exact ⟨hp.wellFormed, hvalues, hscope, hp.written, hp.regions, hp.attributes⟩
  · exact fun hp => ⟨_, hp.reload⟩

end Program

/-- What the parser makes of a source can be written and loaded. -/
theorem loadable_of_parse {source : String} {p : Program} (h : parse source = .ok p) :
    p.Loadable := by
  obtain ⟨ts, hts⟩ := tokenize_of_parse h
  obtain ⟨attributes, ops, htokens, rfl⟩ := (parse_eq_ok_iff hts).1 h
  obtain ⟨bindings, statements, hsource, hscope, rfl, rfl⟩ := parseTokens_eq_ok_iff.1 htokens
  have hlexeme := (lexes_of_tokensFrom hts).isLexeme
  obtain ⟨ka, kb, hka, hkb, hattributes, hblock⟩ := hsource.exists_parts hlexeme
  obtain ⟨hregions, hwritten⟩ := hkb.isWritten hblock
  have hwf := Program.wellFormed_ofForest (.ofList bindings) (statements.map Statement.operation)
  have hcontents := Program.contents_ofForest (.ofList bindings)
    (statements.map Statement.operation)
  have hreads : WellScoped []
      ((statements.map Statement.operation).map Statement.ofOperation).preorder := by
    rw [Forest.map_map, Forest.preorder_map]
    exact (wellScoped_map (g := Statement.ofOperation ∘ Statement.operation) (fun _ => rfl)
      fun _ _ => Iff.rfl).2 hscope
  rw [← hcontents] at hregions hwritten hreads
  obtain ⟨hvalues, hscope⟩ := (Program.wellScoped_contents_iff hwf).1 hreads
  exact ⟨hwf, hvalues, hscope, Program.forall_walk_iff.2 hwritten,
    hwf.contents_regions_iff.1 hregions,
    fun e he => hka.isWritten hattributes e (Dictionary.mem_of_mem_ofList he)⟩

/-- What the parser makes of a source is the program of its contents, and only operations with a
region have others below them. -/
theorem ofForest_of_parse {source : String} {p : Program} (h : parse source = .ok p) :
    p = .ofForest p.attributes p.contents ∧ p.contents.Regions := by
  have hp := loadable_of_parse h
  obtain ⟨ts, hts⟩ := tokenize_of_parse h
  obtain ⟨attributes, ops, -, rfl⟩ := (parse_eq_ok_iff hts).1 h
  exact ⟨by rw [Program.contents_ofForest]; rfl, hp.wellFormed.contents_regions_iff.2 hp.regions⟩

end TileFlow
