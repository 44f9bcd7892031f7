import TileFlow.Program.Basic
import TileFlow.Program.Print
import TileFlow.Proofs.Program.Dictionary
import TileFlow.Proofs.Source.Language
import TileFlow.Proofs.Source.Texts

/-!
# Printing and parsing

The quoted texts that a program carries, as operands and attributes of its operations or as its own
attributes, at any depth of arrays; and the program with each of them replaced.

The written form of a program that was parsed is parsed again, and gives the same program but for
the texts that need an escape which the lexer does not know. The derivation of the new tokens is
made from the old one, part by part: braces hold a program without attributes too, a dictionary is
written by its entries, and every text is written with its escapes.

## Main results

* `Program.texts`: the texts of a program.
* `Program.mapTexts`: the program with a function applied to its texts.
* `Program.mapTexts_eq_self_iff`: a function that keeps the texts keeps the program, and no other.
* `IsAttribute.prints`, `IsStatement.prints`, `IsBlock.prints`, `IsSource.prints`: what is written
  for the parts of a derivation, and the derivation of its tokens.
* `parse_print`: the program that is parsed from the written form.
-/

/-! ## The texts of a program -/

namespace TileFlow

variable {f : String → String}

/-- A function keeps a list exactly when it keeps what is in it. -/
theorem map_eq_self_iff {α : Type} {g : α → α} {l : List α} :
    l.map g = l ↔ ∀ a ∈ l, g a = a := by
  conv => lhs; rhs; rw [← List.map_id l]
  exact List.map_inj_left

namespace Attribute

mutual

/-- The quoted texts of an attribute. -/
def texts : Attribute → List String
  | .str s => [s]
  | .array items => textsList items
  | _ => []

/-- The quoted texts of a list of attributes. -/
def textsList : List Attribute → List String
  | [] => []
  | x :: xs => x.texts ++ textsList xs

end

mutual

/-- The attribute with a function applied to its quoted texts. -/
def mapTexts (f : String → String) : Attribute → Attribute
  | .int n => .int n
  | .str s => .str (f s)
  | .ident s => .ident s
  | .symbol s => .symbol s
  | .value s => .value s
  | .array items => .array (mapTextsList f items)

/-- The attributes with a function applied to their quoted texts. -/
def mapTextsList (f : String → String) : List Attribute → List Attribute
  | [] => []
  | x :: xs => x.mapTexts f :: mapTextsList f xs

end

mutual

/-- An attribute is unchanged exactly if all its texts are. -/
theorem mapTexts_eq_self_iff : (a : Attribute) → (a.mapTexts f = a ↔ ∀ s ∈ a.texts, f s = s)
  | .int _ | .ident _ | .symbol _ | .value _ => by simp [mapTexts, texts]
  | .str _ => by simp [mapTexts, texts]
  | .array items => by simp [mapTexts, texts, mapTextsList_eq_self_iff items]

/-- A list of attributes is unchanged exactly if all its texts are. -/
theorem mapTextsList_eq_self_iff : (as : List Attribute) →
    (mapTextsList f as = as ↔ ∀ s ∈ textsList as, f s = s)
  | [] => by simp [mapTextsList, textsList]
  | a :: as => by
      simp only [mapTextsList, textsList, List.cons.injEq, List.mem_append,
        mapTexts_eq_self_iff a, mapTextsList_eq_self_iff as]
      exact ⟨fun ⟨h, h'⟩ s hs => hs.elim (h s) (h' s),
        fun h => ⟨fun s hs => h s (.inl hs), fun s hs => h s (.inr hs)⟩⟩

end

/-- Texts of a list are changed attribute by attribute. -/
theorem mapTextsList_eq_map (as : List Attribute) : mapTextsList f as = as.map (mapTexts f) := by
  induction as with
  | nil => rfl
  | cons a as ih => rw [mapTextsList, ih, List.map_cons]

/-- A list is rendered attribute by attribute. -/
theorem renderList_eq_map (as : List Attribute) : renderList as = as.map render := by
  induction as with
  | nil => rfl
  | cons a as ih => rw [renderList, ih, List.map_cons]

/-- Values are no texts. -/
theorem mapTexts_eq_value_iff {a : Attribute} {v : String} :
    a.mapTexts f = .value v ↔ a = .value v := by
  cases a <;> simp [mapTexts]

end Attribute

/-- The quoted texts of a dictionary. -/
def Dictionary.texts (d : Dictionary) : List String :=
  d.entries.flatMap (·.2.texts)

/-- The dictionary with a function applied to its quoted texts. -/
def Dictionary.mapTexts (f : String → String) (d : Dictionary) : Dictionary where
  entries := d.entries.map fun e => (e.1, e.2.mapTexts f)
  sorted := by simpa [List.pairwise_map] using d.sorted

/-- A dictionary is unchanged exactly if all its texts are. -/
theorem Dictionary.mapTexts_eq_self_iff {d : Dictionary} :
    d.mapTexts f = d ↔ ∀ s ∈ d.texts, f s = s := by
  have hentries : d.mapTexts f = d ↔ (d.mapTexts f).entries = d.entries :=
    ⟨congrArg entries, ext⟩
  rw [hentries, mapTexts, map_eq_self_iff]
  simp only [texts, List.mem_flatMap, Prod.ext_iff, true_and, Attribute.mapTexts_eq_self_iff]
  exact ⟨fun h s ⟨e, he, hs⟩ => h e he s hs, fun h e he s hs => h s ⟨e, he, hs⟩⟩

/-- The quoted texts of an operation. -/
def Operation.texts (op : Operation) : List String :=
  Attribute.textsList op.operands ++ op.attributes.texts

/-- The operation with a function applied to its quoted texts. -/
def Operation.mapTexts (f : String → String) (op : Operation) : Operation :=
  { op with
    operands := Attribute.mapTextsList f op.operands
    attributes := op.attributes.mapTexts f }

/-- An operation is unchanged exactly if all its texts are. -/
theorem Operation.mapTexts_eq_self_iff {op : Operation} :
    op.mapTexts f = op ↔ ∀ s ∈ op.texts, f s = s := by
  obtain ⟨name, result, operands, attributes, hasRegion⟩ := op
  simp only [mapTexts, texts, Operation.mk.injEq, true_and, and_true, List.mem_append,
    Attribute.mapTextsList_eq_self_iff, Dictionary.mapTexts_eq_self_iff]
  exact ⟨fun ⟨h, h'⟩ s hs => hs.elim (h s) (h' s),
    fun h => ⟨fun s hs => h s (.inl hs), fun s hs => h s (.inr hs)⟩⟩

/-- The quoted texts of a program. -/
def Program.texts (p : Program) : List String :=
  p.attributes.texts ++ p.slots.toList.flatMap (·.op.texts)

/-- The program with a function applied to its quoted texts. -/
def Program.mapTexts (f : String → String) (p : Program) : Program :=
  { p with
    slots := p.slots.map fun s => { s with op := s.op.mapTexts f }
    attributes := p.attributes.mapTexts f }

/-- A program stays the same when its texts do, and only then. -/
theorem Program.mapTexts_eq_self_iff {p : Program} :
    p.mapTexts f = p ↔ ∀ s ∈ p.texts, f s = s := by
  obtain ⟨slots, body, detached, attributes⟩ := p
  have hslots : (slots.map fun s => { s with op := s.op.mapTexts f }) = slots ↔
      ∀ s ∈ slots.toList, ∀ t ∈ s.op.texts, f t = t := by
    rw [← Array.toList_inj, Array.toList_map, map_eq_self_iff]
    refine forall_congr' fun s => imp_congr_right fun _ => ?_
    obtain ⟨op, erased⟩ := s
    simp only [Slot.mk.injEq, and_true, Operation.mapTexts_eq_self_iff]
  simp only [mapTexts, texts, Program.mk.injEq, true_and, hslots, List.mem_append,
    List.mem_flatMap, Dictionary.mapTexts_eq_self_iff]
  exact ⟨fun ⟨h, h'⟩ s hs => hs.elim (h' s) fun ⟨t, ht, hs⟩ => h t ht s hs,
    fun h => ⟨fun t ht s hs => h s (.inr ⟨t, ht, hs⟩), fun s hs => h s (.inl hs)⟩⟩

end TileFlow

/-! ## Written forms -/

namespace TileFlow

namespace Source

variable {α : Type} {k : List Token}

/-! ### Written parts -/

/-- A text is read as some tokens, if a delimiter follows it. -/
def Prints (text : String) (k : List Token) : Prop :=
  ∀ ⦃rest : List Char⦄ ⦃ks : List Token⦄, Delimited rest → Lexes rest ks →
    Lexes (text.toList ++ rest) (k ++ ks)

/-- The end of the source delimits. -/
theorem delimited_nil : Delimited [] := fun _ hc => nomatch hc

/-- A delimiter in front delimits. -/
theorem delimited_cons {c : Char} {rest : List Char} (hc : isDelimiter c = true) :
    Delimited (c :: rest) := by
  intro d hd
  cases hd
  exact hc

/-- A part that may be left out does not continue what stands before it. -/
theorem delimited_ite {b : Bool} {s : String} (hs : Delimited s.toList) :
    Delimited (if b then "" else s).toList := by
  split
  · exact delimited_nil
  · exact hs

/-- What is delimited stays so when delimited text follows. -/
theorem Delimited.append {cs rest : List Char} (hcs : Delimited cs) (hrest : Delimited rest) :
    Delimited (cs ++ rest) := by
  cases cs with
  | nil => exact hrest
  | cons c cs => exact hcs

/-- The empty text prints no token. -/
theorem Prints.nil : Prints "" [] := fun _ _ _ h => h

/-- Texts in a row print the tokens of both, if the second is delimited. -/
theorem Prints.append {s t : String} {k k' : List Token} (h : Prints s k) (h' : Prints t k')
    (ht : Delimited t.toList) : Prints (s ++ t) (k ++ k') := by
  intro rest ks hrest hks
  rw [String.toList_append, List.append_assoc, List.append_assoc]
  exact h (ht.append hrest) (h' hrest hks)

/-- Parts with commas between them. -/
theorem commaSeparated_prints {Item : List Token → α → Prop} {g : α → α} {render : α → String}
    {xs : List α} (hne : xs ≠ []) (h : ∀ a ∈ xs, ∃ k, Item k (g a) ∧ Prints (render a) k) :
    ∃ k, CommaSeparated Item k (xs.map g) ∧ Prints (commaSeparated (xs.map render)) k := by
  induction xs with
  | nil => exact absurd rfl hne
  | cons a xs ih =>
      obtain ⟨k, hk, hprints⟩ := h a List.mem_cons_self
      cases xs with
      | nil => exact ⟨k, .single hk, hprints⟩
      | cons b xs =>
          obtain ⟨k', hk', hprints'⟩ := ih (by simp) fun c hc => h c (List.mem_cons_of_mem _ hc)
          refine ⟨k ++ .mark .comma :: k', .cons hk hk', ?_⟩
          intro rest ks hrest hks
          have hcomma : Lexes
              (',' :: ' ' :: ((commaSeparated ((b :: xs).map render)).toList ++ rest))
              (.mark .comma :: (k' ++ ks)) :=
            ((hprints' hrest hks).blank rfl).mark .comma
          have := hprints (delimited_cons rfl) hcomma
          simpa [commaSeparated] using this

/-- An item of a derivation has a derivation of its own, whose tokens are among those of the
whole. -/
theorem CommaSeparated.exists_item {Item : List Token → α → Prop} {xs : List α}
    (h : CommaSeparated Item k xs) {a : α} (ha : a ∈ xs) : ∃ k', Item k' a ∧ k' ⊆ k := by
  induction h with
  | single hk =>
      obtain rfl := List.mem_singleton.1 ha
      exact ⟨_, hk, List.Subset.refl _⟩
  | @cons ks us b bs hk _ ih =>
      rcases List.mem_cons.1 ha with rfl | ha
      · exact ⟨ks, hk, List.subset_append_left _ _⟩
      · obtain ⟨k', hk', hsub⟩ := ih ha
        exact ⟨k', hk', fun t ht => List.mem_append_right _ (List.mem_cons_of_mem _ (hsub ht))⟩

/-- A list with commas has at least one item. -/
theorem CommaSeparated.ne_nil {Item : List Token → α → Prop} {xs : List α}
    (h : CommaSeparated Item k xs) : xs ≠ [] := by
  cases h <;> simp

/-! ### Attributes and operands -/

/-- What is written for an attribute is an attribute again, with its texts reread. -/
theorem IsAttribute.prints {k : List Token} {a : Attribute} (h : IsAttribute k a)
    (hk : ∀ t ∈ k, t.IsLexeme) :
    ∃ k', IsAttribute k' (a.mapTexts reread) ∧ Prints a.render k' := by
  cases h with
  | int n => exact ⟨_, .int n, fun rest ks hrest h => Lexes.int (hk (.int n) (by simp)) hrest h⟩
  | str s => exact ⟨_, .str (reread s), fun rest ks _ h => h.str s⟩
  | ident s =>
      exact ⟨_, .ident s, fun rest ks hrest h => h.ident (hk (.ident s) (by simp)) hrest⟩
  | symbol s =>
      refine ⟨_, .symbol s, fun rest ks hrest h => ?_⟩
      have := h.symbol (hk (.symbol s) (by simp)) hrest
      simpa [Attribute.render] using this
  | emptyArray =>
      refine ⟨_, .emptyArray, fun rest ks _ h => ?_⟩
      exact (h.mark .rightBracket).mark .leftBracket
  | @array k items hitems =>
      have hprints : ∀ b ∈ items, ∃ k', IsAttribute k' (b.mapTexts reread) ∧
          Prints b.render k' := fun b hb => by
        obtain ⟨kb, hkb, hsub⟩ := hitems.exists_item hb
        exact hkb.prints fun t ht => hk t (by simp [hsub ht])
      obtain ⟨k', hk', hprints'⟩ := commaSeparated_prints hitems.ne_nil hprints
      refine ⟨.mark .leftBracket :: (k' ++ [.mark .rightBracket]), ?_, fun rest ks _ h => ?_⟩
      · rw [Attribute.mapTexts, Attribute.mapTextsList_eq_map]
        exact .array hk'
      · have hclose := hprints' (delimited_cons rfl) (h.mark .rightBracket)
        have := hclose.mark .leftBracket
        simpa [Attribute.render, Attribute.renderList_eq_map, Mark.char] using this
termination_by sizeOf a

/-- What is written for an operand is an operand again. -/
theorem IsOperand.prints {a : Attribute} (h : IsOperand k a) (hk : ∀ t ∈ k, t.IsLexeme) :
    ∃ k', IsOperand k' (a.mapTexts reread) ∧ Prints a.render k' := by
  cases h with
  | value name =>
      refine ⟨_, .value name, fun rest ks hrest h => ?_⟩
      have := h.value (hk (.value name) (by simp)) hrest
      simpa [Attribute.render] using this
  | attr ha =>
      obtain ⟨k', hk', hprints⟩ := ha.prints hk
      exact ⟨k', .attr hk', hprints⟩

/-- What is written for operands, which is nothing if there are none. -/
theorem IsArguments.prints {operands : List Attribute} (h : IsArguments k operands)
    (hk : ∀ t ∈ k, t.IsLexeme) :
    ∃ k', IsArguments k' (operands.map (Attribute.mapTexts reread)) ∧
      Prints (if operands.isEmpty then "" else
        "(" ++ commaSeparated (operands.map (·.render)) ++ ")") k' := by
  cases h with
  | absent => exact ⟨[], .absent, .nil⟩
  | empty => exact ⟨[], .absent, .nil⟩
  | @present k _ hoperands =>
      have hprints : ∀ b ∈ operands, ∃ k', IsOperand k' (b.mapTexts reread) ∧
          Prints b.render k' := fun b hb => by
        obtain ⟨kb, hkb, hsub⟩ := hoperands.exists_item hb
        exact hkb.prints fun t ht => hk t (by simp [hsub ht])
      obtain ⟨k', hk', hprints'⟩ := commaSeparated_prints hoperands.ne_nil hprints
      refine ⟨_, .present hk', fun rest ks _ h => ?_⟩
      have hclose := hprints' (delimited_cons rfl) (h.mark .rightParen)
      have := hclose.mark .leftParen
      simpa [hoperands.ne_nil, Mark.char] using this

/-! ### Dictionaries -/

/-- What is written for a dictionary is the one of its entries, with their texts reread. -/
theorem IsDictionary.prints {bindings : List (String × Attribute)} (h : IsDictionary k bindings)
    (hk : ∀ t ∈ k, t.IsLexeme) :
    ∃ k', IsDictionary k' ((Dictionary.ofList bindings).mapTexts reread).entries ∧
      Prints (if (Dictionary.ofList bindings).isEmpty then "" else
        " \x7b" ++ (Dictionary.ofList bindings).render ++ "\x7d") k' := by
  cases h with
  | absent => exact ⟨[], .absent, .nil⟩
  | @present k _ hbindings =>
      generalize hd : Dictionary.ofList bindings = d
      by_cases hempty : d.entries = []
      · have hnone : (d.mapTexts reread).entries = [] := by simp [Dictionary.mapTexts, hempty]
        rw [hnone, Dictionary.isEmpty, hempty]
        exact ⟨[], .absent, .nil⟩
      · have hprints : ∀ e ∈ d.entries, ∃ k', IsBinding k' (e.1, e.2.mapTexts reread) ∧
            Prints (e.1 ++ " = " ++ e.2.render) k' := by
          intro e he
          obtain ⟨kb, hkb, hsub⟩ :=
            hbindings.exists_item (Dictionary.mem_of_mem_ofList (hd ▸ he))
          cases hkb with
          | @mk ts a key ha =>
              have hlexeme : ∀ t ∈ .ident key :: .mark .equals :: ts, t.IsLexeme :=
                fun t ht => hk t (by simp [hsub ht])
              obtain ⟨k', hk', hprints⟩ := ha.prints fun t ht => hlexeme t (by simp [ht])
              refine ⟨_, .mk key hk', fun rest ks hrest h => ?_⟩
              have hequals : Lexes (' ' :: '=' :: ' ' :: (a.render.toList ++ rest))
                  (.mark .equals :: (k' ++ ks)) :=
                (((hprints hrest h).blank rfl).mark .equals).blank rfl
              have := hequals.ident (hlexeme (.ident key) (by simp)) (delimited_cons rfl)
              simpa using this
        obtain ⟨k', hk', hprints'⟩ := commaSeparated_prints hempty hprints
        refine ⟨_, .present hk', fun rest ks _ h => ?_⟩
        have hclose := hprints' (delimited_cons rfl) (h.mark .rightBrace)
        have := (hclose.mark .leftBrace).blank (c := ' ') rfl
        simpa [Dictionary.isEmpty, hempty, Mark.char, Dictionary.render] using this

/-! ### Statements and blocks -/

/-- The statement that is written for the operation of a statement: with the entries of its
attributes as bindings. -/
def Statement.reread (s : Statement) : Statement :=
  { s with
    operands := s.operands.map (Attribute.mapTexts Source.reread)
    bindings := (s.operation.attributes.mapTexts Source.reread).entries }

/-- The operation of a statement that is read again. -/
theorem Statement.operation_reread (s : Statement) :
    s.reread.operation = s.operation.mapTexts Source.reread := by
  simp [operation, reread, Operation.mapTexts, Attribute.mapTextsList_eq_map,
    Dictionary.ofList_entries]

/-- What is written for a statement up to its region is the statement again. -/
theorem IsStatement.prints {s : Statement} (h : IsStatement k s) (hk : ∀ t ∈ k, t.IsLexeme) :
    ∃ k', IsStatement k' s.reread ∧ Prints s.operation.header k' := by
  cases h with
  | @mk rs os as result operands bindings name hasRegion hr ha hd =>
      obtain ⟨ko, hko, hoperands⟩ := ha.prints fun t ht => hk t (by simp [ht])
      obtain ⟨ka, hka, hattributes⟩ := hd.prints fun t ht => hk t (by simp [ht])
      have hname : Prints name [.ident name] := fun rest ks hrest h =>
        h.ident (hk (.ident name) (by simp)) hrest
      have htail := (hname.append hoperands (delimited_ite (by
        rw [String.toList_append, String.toList_append]
        exact delimited_cons rfl))).append hattributes (delimited_ite (by
        rw [String.toList_append, String.toList_append]
        exact delimited_cons rfl))
      refine ⟨rs ++ .ident name :: (ko ++ ka), .mk name hasRegion hr hko hka, ?_⟩
      generalize htext : name ++ _ ++ _ = text at htail
      cases hr with
      | absent =>
          have hheader : Operation.header (Statement.operation
              ⟨none, name, operands, bindings, hasRegion⟩) = "" ++ text := by
            rw [← htext]
            simp only [Operation.header, Statement.operation, String.append_assoc]
          rwa [hheader, String.empty_append]
      | present v =>
          intro rest ks hrest h
          have hheader : Operation.header (Statement.operation
              ⟨some v, name, operands, bindings, hasRegion⟩) = "%" ++ v ++ " = " ++ text := by
            rw [← htext]
            simp only [Operation.header, Statement.operation, String.append_assoc]
          have hequals := (((htail hrest h).blank (c := ' ') rfl).mark .equals).blank (c := ' ') rfl
          have := hequals.value (hk (.value v) (by simp)) (delimited_cons rfl)
          rw [hheader]
          simpa [Mark.char] using this

/-- Indentation does not change the tokens. -/
theorem Lexes.indent {rest : List Char} {ks : List Token} (h : Lexes rest ks) (depth : Nat) :
    Lexes ((TileFlow.indent depth).toList ++ rest) ks := by
  rw [TileFlow.indent, String.toList_ofList]
  refine h.blanks fun c hc => ?_
  rw [List.eq_of_mem_replicate hc]
  rfl

/-- What is written for a block is the block again. -/
theorem IsBlock.prints {ops : Forest Statement} (h : IsBlock k ops)
    (hk : ∀ t ∈ k, t.IsLexeme) :
    ∃ k', IsBlock k' (ops.map Statement.reread) ∧
      ∀ (depth : Nat) ⦃rest : List Char⦄ ⦃ks : List Token⦄, Lexes rest ks →
        Lexes ((printForest depth (ops.map Statement.operation)).toList ++ rest) (k' ++ ks) := by
  induction h with
  | nil => exact ⟨[], .nil, fun _ _ _ h => h⟩
  | @plain ts us s later hs hplain _ ih =>
      obtain ⟨ks, hks, hstatement⟩ := hs.prints fun t ht => hk t (by simp [ht])
      obtain ⟨ku, hku, hlater⟩ := ih fun t ht => hk t (by simp [ht])
      refine ⟨ks ++ ku, .plain hks hplain hku, fun depth rest k h => ?_⟩
      have hline :=
        (hstatement (delimited_cons rfl) ((hlater depth h).blank (c := '\n') rfl)).indent
        depth
      have hregion : s.operation.hasRegion = false := hplain
      simpa [Forest.map, printForest, hregion] using hline
  | @region ts vs us s inner later hs hregion _ _ ihinner ihlater =>
      obtain ⟨ks, hks, hstatement⟩ := hs.prints fun t ht => hk t (by simp [ht])
      obtain ⟨kv, hkv, hinner⟩ := ihinner fun t ht => hk t (by simp [ht])
      obtain ⟨ku, hku, hlater⟩ := ihlater fun t ht => hk t (by simp [ht])
      refine ⟨_, .region hks hregion hkv hku, fun depth rest k h => ?_⟩
      have hclose := (((hlater depth h).blank (c := '\n') rfl).mark .rightBrace).indent depth
      have hopen := ((hinner (depth + 1) hclose).blank (c := '\n') rfl).mark .leftBrace
      have hline := (hstatement (delimited_cons rfl) (hopen.blank (c := ' ') rfl)).indent depth
      have hregion' : s.operation.hasRegion = true := hregion
      simpa [Forest.map, printForest, hregion', Mark.char] using hline

/-- The attributes and the block of a source. -/
theorem IsSource.exists_parts {bindings : List (String × Attribute)} {ops : Forest Statement}
    (h : IsSource k bindings ops) (hk : ∀ t ∈ k, t.IsLexeme) :
    ∃ as ts, IsDictionary as bindings ∧ IsBlock ts ops ∧ (∀ t ∈ as, t.IsLexeme) ∧
      ∀ t ∈ ts, t.IsLexeme := by
  cases h with
  | wrapped hd hb =>
      exact ⟨_, _, hd, hb, fun t ht => hk t (by simp [ht]), fun t ht => hk t (by simp [ht])⟩
  | bare _ hb => exact ⟨_, _, .absent, hb, by simp, hk⟩

/-- What is written for a source is the source again, in braces. -/
theorem IsSource.prints {bindings : List (String × Attribute)} {ops : Forest Statement}
    (h : IsSource k bindings ops) (hk : ∀ t ∈ k, t.IsLexeme) :
    ∃ k', IsSource k' ((Dictionary.ofList bindings).mapTexts reread).entries
        (ops.map Statement.reread) ∧
      Lexes (printModule (.ofList bindings) (ops.map Statement.operation)).toList k' := by
  have hmodule : Token.IsLexeme (.ident "module") := ⟨'m', "odule".toList, rfl, rfl, rfl⟩
  have hparts : ∃ ka kb, IsDictionary ka ((Dictionary.ofList bindings).mapTexts reread).entries ∧
      IsBlock kb (ops.map Statement.reread) ∧
      Lexes (printModule (.ofList bindings) (ops.map Statement.operation)).toList
        (.ident "module" :: (ka ++ .mark .leftBrace :: (kb ++ [.mark .rightBrace]))) := by
    obtain ⟨as, ts, hd, hb, has, hts⟩ := h.exists_parts hk
    obtain ⟨ka, hka, hdictionary⟩ := hd.prints has
    obtain ⟨kb, hkb, hblock⟩ := hb.prints hts
    refine ⟨ka, kb, hka, hkb, ?_⟩
    have hclose := (Lexes.nil.blank (c := '\n') rfl).mark .rightBrace
    have hopen := ((hblock 1 hclose).blank (c := '\n') rfl).mark .leftBrace
    have hattributes := hdictionary (delimited_cons rfl) (hopen.blank (c := ' ') rfl)
    have hdelimited : Delimited (if (Dictionary.ofList bindings).isEmpty then "" else
        " \x7b" ++ (Dictionary.ofList bindings).render ++ "\x7d").toList := delimited_ite (by
      rw [String.toList_append, String.toList_append]
      exact delimited_cons rfl)
    have := hattributes.ident hmodule (hdelimited.append (delimited_cons rfl))
    simpa [printModule, Mark.char] using this
  obtain ⟨ka, kb, hka, hkb, hlexes⟩ := hparts
  exact ⟨_, .wrapped hka hkb, hlexes⟩

/-! ### Programs -/

/-- Whether statements fit depends on their results and on the values among their operands. -/
theorem wellScoped_map {g : Statement → Statement} (hresult : ∀ s, (g s).result = s.result)
    (huses : ∀ s v, .value v ∈ (g s).operands ↔ .value v ∈ s.operands) {defined : List String}
    {l : List Statement} : WellScoped defined (l.map g) ↔ WellScoped defined l := by
  induction l generalizing defined with
  | nil => rfl
  | cons s l ih =>
      have hfits : (g s).FitsAfter defined ↔ s.FitsAfter defined :=
        ⟨fun h => ⟨fun v hv => h.uses v ((huses s v).2 hv), hresult s ▸ h.defines⟩,
          fun h => ⟨fun v hv => h.uses v ((huses s v).1 hv), (hresult s).symm ▸ h.defines⟩⟩
      have hdefine : define (g s).operation defined = define s.operation defined := by
        simp [define, Statement.operation, hresult]
      rw [List.map_cons, WellScoped, WellScoped, hfits, hdefine, ih]

/-- Reading again keeps statements well scoped. -/
theorem wellScoped_map_reread {defined : List String} {l : List Statement} :
    WellScoped defined (l.map Statement.reread) ↔ WellScoped defined l :=
  wellScoped_map (g := Statement.reread) (fun _ => rfl) fun s v => by
    simp [Statement.reread, Attribute.mapTexts_eq_value_iff]

end Source

open Source

/-- Changing the texts of a program changes those of its forest. -/
theorem Program.mapTexts_ofForest (f : String → String) (attributes : Dictionary)
    (ops : Forest Operation) : (ofForest attributes ops).mapTexts f =
      ofForest (attributes.mapTexts f) (ops.map (Operation.mapTexts f)) := by
  simp [mapTexts, ofForest]

/-- What is written for a source whose values are defined once and before their uses is parsed, and
gives the program of the source with its texts reread. -/
theorem Source.IsSource.parse_written {k : List Token} {bindings : List (String × Attribute)}
    {ops : Forest Statement} (h : IsSource k bindings ops) (hk : ∀ t ∈ k, t.IsLexeme)
    (hscope : WellScoped [] ops.preorder) :
    parse (printModule (.ofList bindings) (ops.map Statement.operation)) =
      .ok ((Program.ofForest (.ofList bindings) (ops.map Statement.operation)).mapTexts
    reread) := by
  obtain ⟨k', hk', hlexes⟩ := h.prints hk
  obtain ⟨ts, hts, rfl⟩ := hlexes.tokensFrom 0
  refine (parse_eq_ok_iff hts).2 ⟨_, _, parseTokens_eq_ok_iff.2 ⟨_, _, hk', ?_, rfl, rfl⟩, ?_⟩
  · rwa [Forest.preorder_map, wellScoped_map_reread]
  · rw [Program.mapTexts_ofForest, Dictionary.ofList_entries, Forest.map_map, Forest.map_map]
    congr 2
    funext s
    exact (Statement.operation_reread s).symm

/-- What is written for a source is parsed only if its values are defined once and before their
uses. -/
theorem Source.IsSource.wellScoped_of_parse_written {k : List Token}
    {bindings : List (String × Attribute)} {ops : Forest Statement} (h : IsSource k bindings ops)
    (hk : ∀ t ∈ k, t.IsLexeme) {p : Program}
    (hp : parse (printModule (.ofList bindings) (ops.map Statement.operation)) = .ok p) :
    WellScoped [] ops.preorder := by
  obtain ⟨k', hk', hlexes⟩ := h.prints hk
  obtain ⟨ts, hts, rfl⟩ := hlexes.tokensFrom 0
  obtain ⟨attributes, contents, htokens, -⟩ := (parse_eq_ok_iff hts).1 hp
  have hscope := parseTokens_wellScoped hk' htokens
  rwa [Forest.preorder_map, wellScoped_map_reread] at hscope

/-- **Printing and parsing.** The written form of a program that was parsed is parsed again, and
gives the program with its texts reread. That is the same program exactly when all its texts are
plain; and texts that are plain never change. -/
theorem parse_print {source : String} {p : Program} (h : parse source = .ok p) :
    parse p.print = .ok (p.mapTexts reread) ∧
      (p.mapTexts reread = p ↔ ∀ s ∈ p.texts, IsPlainText s) ∧
      ∀ s, reread s = s ↔ IsPlainText s := by
  refine ⟨?_, ?_, fun s => reread_eq_iff⟩
  · obtain ⟨ts, hts⟩ := tokenize_of_parse h
    obtain ⟨attributes, ops, htokens, rfl⟩ := (parse_eq_ok_iff hts).1 h
    obtain ⟨bindings, statements, hsource, hscope, rfl, rfl⟩ := parseTokens_eq_ok_iff.1 htokens
    rw [Program.print, Program.contents_ofForest]
    exact hsource.parse_written (lexes_of_tokensFrom hts).isLexeme hscope
  · rw [Program.mapTexts_eq_self_iff]
    exact forall_congr' fun s => imp_congr_right fun _ => reread_eq_iff

/-- A carriage return within a text is lost. -/
theorem parse_print_carriage_return : ∃ p, parse "t.x(\"\r\")" = .ok p ∧
    parse p.print = .ok (p.mapTexts reread) ∧ p.mapTexts reread ≠ p := by
  have heval : (tokenize "t.x(\"\r\")").toOption.map tokens =
      some [.ident "t.x", .mark .leftParen, .str "\r", .mark .rightParen] := by
    decide +kernel
  rcases h : tokenize "t.x(\"\r\")" with e | ts
  · simp [h, Except.toOption] at heval
  have hts : tokens ts = [.ident "t.x", .mark .leftParen, .str "\r", .mark .rightParen] := by
    simpa [h, Except.toOption] using heval
  have hstatement := IsStatement.mk "t.x" false .absent
    (.present (.single (.attr (.str "\r")))) .absent
  have hsource : IsSource (tokens ts) []
      (.cons ⟨none, "t.x", [.str "\r"], [], false⟩ .nil .nil) := by
    rw [hts]
    exact .bare (by decide) (.plain hstatement rfl .nil)
  have hparse := (parse_eq_ok_iff h).2 ⟨_, _, parseTokens_eq_ok_iff.2
    ⟨_, _, hsource, ⟨⟨by simp, by simp⟩, trivial⟩, rfl, rfl⟩, rfl⟩
  obtain ⟨hprint, hplain, -⟩ := parse_print hparse
  refine ⟨_, hparse, hprint, fun heq => ?_⟩
  have hreturn := hplain.1 heq "\r" (by simp [Program.texts, Program.ofForest, Forest.map,
    Forest.preorder, Statement.operation, Operation.texts, Attribute.textsList, Attribute.texts])
  exact absurd (hreturn '\r' (by simp)) (by decide)

end TileFlow
