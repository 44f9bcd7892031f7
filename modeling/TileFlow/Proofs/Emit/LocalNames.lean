import TileFlow.Proofs.Emit.Terminators

/-!
# Local names of functions

The lines of a function introduce local names: blocks that open and values that are assigned. Some
are values of the program, of which no two have the same name. The others are made, from numbers
that are not used twice, and all but those of addresses and the name of the entry block end in a
word after a dot. No value of a program that can be written has a dot in its name, so that only
these two kinds of names can be those of values as well.

## Main definitions

* `localNames`, `addressNames`: the local names that lines introduce, and those of addresses.
* `ownValues`: the values of a function that its lines assign.
* `Introduces`: lines that introduce values and names that are made.

## Main results

* `Laid.introduces`: the names that operations introduce.
* `Program.backendText_localNames`: when the local names of a function are different.
-/

namespace TileFlow

namespace Backend

variable {op : Operation} {ops : Forest Operation} {lines later start finish : List Line} {l : Line}
  {block block' opened exit : String} {own own' : List String} {made made' low mid high : Nat}

/-! ### Names -/

/-- The local name that a line introduces: the block that it opens or the value that it assigns. -/
def Line.localName? (l : Line) : Option String :=
  l.label?.or l.assigned?

/-- The name of an address that a line computes. -/
def Line.address? : Line → Option String
  | .address result _ _ => some result
  | _ => none

/-- The local names that lines introduce. -/
def localNames (lines : List Line) : List String :=
  lines.filterMap (·.localName?)

/-- The names of the addresses that lines compute. -/
def addressNames (lines : List Line) : List String :=
  lines.filterMap (·.address?)

/-- The value that the lines of an operation assign for it. -/
def assignedBy (op : Operation) : Option String :=
  if op.is "llvm.cond" || op.is "llvm.store" || op.is "llvm.return" then none else op.result

/-- The values of a function that its lines assign. -/
def ownValues (ops : Forest Operation) : List String :=
  (laidOut ops).filterMap assignedBy

/-- What a plain operation assigns is its result. -/
theorem assignedBy_of_is {name : String} (hop : op.is name = true)
    (hname : name ∉ ["llvm.cond", "llvm.store", "llvm.return"]) : assignedBy op = op.result := by
  simp only [List.mem_cons, List.not_mem_nil, or_false, not_or] at hname
  rw [assignedBy, Operation.not_is_of_is hop hname.1, Operation.not_is_of_is hop hname.2.1,
    Operation.not_is_of_is hop hname.2.2]
  rfl

/-- Only a value of an operation is assigned for it. -/
theorem assignedBy_eq (op : Operation) : assignedBy op = none ∨ assignedBy op = op.result := by
  rw [assignedBy]
  split
  · exact .inl rfl
  · exact .inr rfl

/-- The line of an operation assigns the value of the operation, if any. -/
theorem IsLineOf.localName? (h : IsLineOf op l) : l.localName? = assignedBy op ∧
    l.address? = none := by
  cases h with
  | call _ _ hop => exact ⟨(assignedBy_of_is hop (by decide)).symm, rfl⟩
  | load _ _ hop hresult =>
      exact ⟨((assignedBy_of_is hop (by decide)).trans hresult).symm, rfl⟩
  | store _ _ hop =>
      rw [assignedBy, hop, Bool.or_true]
      exact ⟨rfl, rfl⟩
  | constant _ _ hop hresult =>
      exact ⟨((assignedBy_of_is hop (by decide)).trans hresult).symm, rfl⟩
  | ret hop =>
      rw [assignedBy, hop, Bool.or_true]
      exact ⟨rfl, rfl⟩
  | binary _ _ _ _ _ _ hop hresult =>
      have hname : op.name ∉ ["llvm.cond", "llvm.store", "llvm.return"] := fun hmem => by
        have := (by decide : ∀ name ∈ ["llvm.cond", "llvm.store", "llvm.return"],
          binaryOpcode? name = none) _ hmem
        rw [hop] at this
        cases this
      exact ⟨((assignedBy_of_is (beq_self_eq_true _) hname).trans hresult).symm, rfl⟩

/-- The names that lines introduce: those of some operations and names that are made from numbers of
a range, each of which has a dot or is that of an address. -/
structure Introduces (lines : List Line) (own : List String) (low high : Nat)
    (names : List String) :
    Prop where
  perm : (localNames lines).Perm (own ++ names)
  nodup : names.Nodup
  numbered : ∀ n ∈ names, IsNumbered low high n
  dotted : ∀ n ∈ names, '.' ∈ n.toList ∨ n ∈ addressNames lines
  addresses : ∀ n ∈ addressNames lines, n ∈ names

/-- Two lists of lines introduce the names of both, own names and made names apart. -/
theorem Introduces.append {names names' : List String} (h : Introduces lines own low mid names)
    (h' : Introduces later own' mid high names') (hlow : low ≤ mid) (hhigh : mid ≤ high) :
    Introduces (lines ++ later) (own ++ own') low high (names ++ names') where
  perm := by
    refine List.perm_iff_count.2 fun n => ?_
    have hcount := h.perm.count_eq n
    have hcount' := h'.perm.count_eq n
    rw [localNames] at hcount hcount'
    rw [localNames, List.filterMap_append]
    simp only [List.count_append] at hcount hcount' ⊢
    omega
  nodup := IsNumbered.nodup_append h.nodup h'.nodup h.numbered h'.numbered
  numbered n hn := (List.mem_append.1 hn).elim (fun hn => (h.numbered n hn).mono le_rfl hhigh)
    fun hn => (h'.numbered n hn).mono hlow le_rfl
  dotted n hn := by
    rw [addressNames, List.filterMap_append, List.mem_append]
    rcases List.mem_append.1 hn with hn | hn
    · exact (h.dotted n hn).imp_right .inl
    · exact (h'.dotted n hn).imp_right .inr
  addresses n hn := by
    rw [addressNames, List.filterMap_append] at hn
    exact List.mem_append.2 ((List.mem_append.1 hn).imp (h.addresses n) (h'.addresses n))

/-- The order of lines does not matter for the names that they introduce. -/
theorem Introduces.of_perm {names : List String} (h : Introduces lines own low high names)
    (hperm : lines.Perm later) : Introduces later own low high names where
  perm := (hperm.filterMap _).symm.trans h.perm
  nodup := h.nodup
  numbered := h.numbered
  dotted n hn := (h.dotted n hn).imp_right (hperm.filterMap _).mem_iff.1
  addresses n hn := h.addresses n ((hperm.filterMap _).mem_iff.2 hn)

/-- An operation without a region of its own introduces its value, and perhaps the name of an
address. -/
theorem IsPlain.introduces (h : IsPlain made op lines made') :
    ∃ names, Introduces lines (assignedBy op).toList made made' names := by
  have hline : ∀ l, IsLineOf op l →
      localNames [l] = (assignedBy op).toList ∧ addressNames [l] = [] := fun l hl => by
    obtain ⟨hname, haddress⟩ := hl.localName?
    rw [localNames, List.filterMap_cons, hname, addressNames, List.filterMap_cons, haddress]
    cases assignedBy op <;> exact ⟨rfl, rfl⟩
  cases h with
  | single hl =>
      obtain ⟨hname, haddress⟩ := hline _ hl
      exact ⟨[], by rw [hname, List.append_nil], .nil, by simp, by simp, by simp [haddress]⟩
  | @addressed l base index hl =>
      obtain ⟨hname, haddress⟩ := hline l hl
      let gep := "gep" ++ toString (made + 1)
      have hnumbered : IsNumbered made (made + 1) gep := by
        have : IsNumbered made (made + 1) ("gep" ++ toString (made + 1) ++ "") :=
          isNumbered_append (by decide) (by decide)
        rwa [String.append_empty] at this
      have hnames : localNames [.address gep base index, l] = gep :: localNames [l] := rfl
      have haddresses : addressNames [.address gep base index, l] = gep :: addressNames [l] := rfl
      rw [haddress] at haddresses
      refine ⟨[gep], ?_, List.nodup_singleton _, List.forall_mem_singleton.2 hnumbered,
        fun n hn => .inr (haddresses ▸ hn), fun n hn => haddresses ▸ hn⟩
      rw [hnames, hname]
      exact @List.perm_append_comm _ [gep] _

/-- Names that are made from a number, each of which ends in a word after a dot. -/
theorem dotted_numbered {stem : String} {suffixes : List String}
    (h : ∀ suffix ∈ suffixes, '.' ∈ suffix.toList) :
    ∀ n ∈ suffixes.map (stem ++ ·), '.' ∈ n.toList :=
  List.forall_mem_map.2 fun suffix hsuffix => by
    rw [String.toList_append]
    exact List.mem_append_right _ (h suffix hsuffix)

/-- A loop introduces its value, if it has one, and a conditional does not; their other names have a
dot. -/
theorem Encloses.introduces (h : Encloses block made op start opened finish exit) :
    ∃ names, Introduces (start ++ finish) (assignedBy op).toList made (made + 1) names := by
  -- Whatever the lines are, they compute no address, and their names end in words after dots.
  have hnames : ∀ (stem : String) (suffixes : List String) (lines : List Line) (own : List String),
      stem.toList.all (!·.isDigit) = true →
      (∀ suffix ∈ suffixes,
        suffix.toList.head?.any Char.isDigit = false ∧ '.' ∈ suffix.toList) →
      suffixes.Nodup → addressNames lines = [] →
      (localNames lines).Perm (own ++ suffixes.map (stem ++ toString (made + 1) ++ ·)) →
      ∃ names, Introduces lines own made (made + 1) names := by
    intro stem suffixes lines own hstem hsuffixes hnodup haddresses hperm
    obtain ⟨hdistinct, hnumbered⟩ :=
      nodup_numbered made stem suffixes hstem (fun suffix h => (hsuffixes suffix h).1) hnodup
    refine ⟨_, hperm, hdistinct, hnumbered, fun n hn => .inl ?_, fun n hn => ?_⟩
    · exact dotted_numbered (fun suffix h => (hsuffixes suffix h).2) n hn
    · rw [haddresses] at hn
      cases hn
  cases h with
  | loop names lower upper step a b c hop hname hcounter =>
      have hlocal : localNames
          (Layout.loopStart names block lower upper ++ Layout.loopEnd names step) =
          [names.header, names.counter, names.name ++ ".cond", names.body, names.latch,
            names.name ++ ".next", names.exit] := rfl
      rw [assignedBy_of_is hop (by decide)]
      cases hresult : op.result with
      | none =>
          rw [hresult, Option.getD_none] at hcounter
          refine hnames "loop" [".header", ".iv", ".cond", ".body", ".latch", ".next", ".exit"] _ _
            (by decide) (by decide) (by decide) rfl ?_
          rw [hlocal, hcounter, ← hname]
          exact .refl _
      | some result =>
          rw [hresult, Option.getD_some] at hcounter
          refine hnames "loop" [".header", ".cond", ".body", ".latch", ".next", ".exit"] _ _
            (by decide) (by decide) (by decide) rfl ?_
          rw [hlocal, hcounter, ← hname]
          exact .swap _ _ _
  | conditional name condition hop hname =>
      rw [assignedBy, hop]
      refine hnames "cond" [".flag", ".then", ".end"] _ _ (by decide) (by decide) (by decide) rfl ?_
      rw [← hname]
      exact .refl _

/-- Own values of a tree and of those after it. -/
theorem ownValues_cons (op : Operation) (children rest : Forest Operation) :
    ownValues (.cons op children rest) = (assignedBy op).toList ++
      (if op.is "llvm.loop" || op.is "llvm.cond" then ownValues children else []) ++
      ownValues rest := by
  rw [ownValues, laidOut, List.filterMap_append, List.filterMap_cons]
  cases assignedBy op <;> cases (op.is "llvm.loop" || op.is "llvm.cond") <;> rfl

/-- Operations introduce the values that they assign, and names that are made from numbers. -/
theorem Laid.introduces (h : Laid block made ops lines block' made') :
    ∃ names, Introduces lines (ownValues ops) made made' names := by
  induction h with
  | nil => exact ⟨[], .nil, .nil, by simp, by simp, by simp [addressNames]⟩
  | @enclosed _ _ _ _ _ made made' high op children rest start finish lines later hop hlines hlater
      ihlines ihlater =>
      obtain ⟨names, hown⟩ := hop.introduces
      obtain ⟨inside, hinside⟩ := ihlines
      obtain ⟨outside, houtside⟩ := ihlater
      have hle := hlines.made_le
      have hall := (hown.append hinside (Nat.le_succ _) hle).append houtside
        (by omega) hlater.made_le
      rw [ownValues_cons, if_pos hop.is]
      refine ⟨_, hall.of_perm (.append_right _ ?_)⟩
      rw [List.append_assoc, List.append_assoc]
      exact .append_left _ List.perm_append_comm
  | @plain _ _ made made' high op children rest lines later hloop hcond hop hlater ih =>
      obtain ⟨names, hown⟩ := hop.introduces
      obtain ⟨outside, houtside⟩ := ih
      rw [ownValues_cons, hloop, hcond, Bool.or_false, if_neg Bool.false_ne_true, List.append_nil]
      exact ⟨_, hown.append houtside hop.made_le hlater.made_le⟩

/-! ### Functions -/

/-- The names of values that can be written have no dots. -/
theorem no_dot_of_mem_ownValues (hwritten : ∀ op ∈ laidOut ops, op.IsWritten) {name : String}
    (h : name ∈ ownValues ops) : '.' ∉ name.toList := by
  obtain ⟨op, hop, hname⟩ := List.mem_filterMap.1 h
  have hresult : op.result = some name := by
    rcases assignedBy_eq op with hnone | hsome
    · rw [hnone] at hname
      cases hname
    · rw [← hsome, hname]
  intro hdot
  have := ((hwritten op hop).result name hresult).2 '.' hdot
  revert this
  decide

/-- What is put around the lines of a function introduces the name of the entry block. -/
theorem functionLines_names {body : Forest Operation} {inner : List Line} {last : Layout}
    (hinner : Layout.forest {} body = .ok (inner, last)) (h : functionLines body = .ok lines) :
    localNames lines = "entry" :: localNames inner ∧ addressNames lines = addressNames inner := by
  obtain ⟨inner', last', hinner', hlines⟩ := functionLines_ok h
  cases hinner.symm.trans hinner'
  rw [hlines]
  split <;> simp [localNames, addressNames, Line.localName?, Line.label?, Line.assigned?,
    Line.address?]

/-- The local names of a function are different exactly if no value of the function has the name of
the entry block or that of an address. -/
theorem functionLines_nodup {body : Forest Operation} (hvalues : (ownValues body).Nodup)
    (hwritten : ∀ op ∈ laidOut body, op.IsWritten) (h : functionLines body = .ok lines) :
    (localNames lines).Nodup ↔
      "entry" ∉ ownValues body ∧ ∀ name ∈ addressNames lines, name ∉ ownValues body := by
  obtain ⟨inner, last, hinner, -⟩ := functionLines_ok h
  obtain ⟨names, hintroduces⟩ := (Layout.forest_laid hinner).introduces
  have hlocal := functionLines_names hinner h
  have hentry : "entry" ∉ names := fun hmem =>
    (hintroduces.numbered _ hmem).numeral_ne_nil (by decide)
  -- A name that is made is no value unless it has no dot, and then it is that of an address.
  have hapart : (∀ a ∈ ownValues body, ∀ b ∈ names, a ≠ b) ↔
      ∀ name ∈ addressNames inner, name ∉ ownValues body := by
    constructor
    · exact fun h name hname hmem => h name hmem name (hintroduces.addresses name hname) rfl
    · rintro h name hmem _ hname rfl
      rcases hintroduces.dotted name hname with hdot | haddress
      · exact no_dot_of_mem_ownValues hwritten hmem hdot
      · exact h name haddress hmem
  rw [hlocal.1, hlocal.2, List.nodup_cons, hintroduces.perm.mem_iff, hintroduces.perm.nodup_iff,
    List.nodup_append, hapart, List.mem_append, or_iff_left hentry]
  exact and_congr_right' ⟨fun h => h.2.2, fun h => ⟨hvalues, hintroduces.nodup, h⟩⟩

/-- The values of a function are some of those of its operations. -/
theorem ownValues_sublist (ops : Forest Operation) :
    (ownValues ops).Sublist (ops.preorder.filterMap (·.result)) := by
  refine .trans ?_ ((laidOut_sublist ops).filterMap _)
  rw [ownValues]
  induction laidOut ops with
  | nil => exact .slnil
  | cons op rest ih =>
      rcases assignedBy_eq op with hnone | hsome
      · rw [List.filterMap_cons_none hnone, List.filterMap_cons]
        cases op.result
        · exact ih
        · exact ih.cons _
      · rw [List.filterMap_cons, hsome, List.filterMap_cons]
        cases op.result
        · exact ih
        · exact ih.cons_cons _

end Backend

open Backend in
/-- The local names of the functions in the text of a program that can be written and defines no
value twice. Those of a function are different exactly if no value of the function is called as
the entry block or an address is; blocks and values of loops and conditionals never clash with
anything. -/
theorem Program.backendText_localNames {p : Program} {text : String}
    (hwritten : ∀ id ∈ p.walk, (p.op id).IsWritten) (hvalues : p.definedValues.Nodup)
    (h : p.backendText = .ok text) :
    ∃ s : Sections, text = s.render ∧
      List.Forall₂ (fun d f => f.IsOf d ∧ ((localNames f.lines).Nodup ↔
          "entry" ∉ ownValues d.2 ∧ ∀ name ∈ addressNames f.lines, name ∉ ownValues d.2))
        (functionBodies p.contents) s.defined := by
  obtain ⟨s, hs, hdefined, -⟩ := Backend.backendText_sections (backendText_ok h)
  have hbodies : ∀ d ∈ functionBodies p.contents,
      (ownValues d.2).Nodup ∧ ∀ op ∈ laidOut d.2, op.IsWritten := fun d hd => by
    have hsublist := preorder_sublist_of_functionBodies hd
    constructor
    · rw [definedValues_eq_contents] at hvalues
      exact hvalues.sublist ((ownValues_sublist d.2).trans (hsublist.filterMap _))
    · exact fun op hop => forall_walk_iff.1 hwritten op
        (((laidOut_sublist d.2).trans hsublist).subset hop)
  refine ⟨s, hs, ((List.forall₂_and_left _ _).2 ⟨hbodies, hdefined⟩).imp fun d f hf => ?_⟩
  exact ⟨hf.2, functionLines_nodup hf.1.1 hf.1.2 hf.2.lines⟩

open Backend in
/-- A loop with addresses in it, of which the values have other names. -/
theorem Program.backendText_localNames_loop : ∃ p text,
    Source.parse ("llvm.func(@f)\x7b%i=llvm.loop(0,4,1)\x7b%x=llvm.load(@a,%i)" ++
      "llvm.store(%x,@b,%i)\x7d\x7d") = .ok p ∧
    (∀ id ∈ p.walk, (p.op id).IsWritten) ∧ p.definedValues.Nodup ∧ p.backendText = .ok text ∧
    ∃ s : Sections, text = s.render ∧ ∃ f, s.defined = [f] ∧ (localNames f.lines).Nodup ∧
      addressNames f.lines = ["gep2", "gep3"] := by
  have hsource : ∃ p, Source.parse ("llvm.func(@f)\x7b%i=llvm.loop(0,4,1)\x7b%x=llvm.load(@a,%i)" ++
        "llvm.store(%x,@b,%i)\x7d\x7d") = .ok p ∧
      ((functionBodies p.contents).map (fun d => (ownValues d.2,
        (Layout.forest {} d.2).toOption.map (addressNames ·.1))) =
          [(["i", "x"], some ["gep2", "gep3"])]) ∧
      p.backendText.toOption.any (fun _ => decide True) = true :=
    exists_ok_of_any (by decide +kernel)
  obtain ⟨p, hp, hnames, htext⟩ := hsource
  obtain ⟨text, htext, -⟩ := exists_ok_of_any htext
  have hloadable := loadable_of_parse hp
  obtain ⟨s, hs, hdefined⟩ :=
    Program.backendText_localNames hloadable.written hloadable.values htext
  obtain ⟨d, hd, hbody⟩ := List.map_eq_singleton_iff.1 hnames
  obtain ⟨hown, haddresses⟩ := Prod.mk.inj hbody
  rw [hd] at hdefined
  obtain ⟨f, rest, ⟨hf, hnodup⟩, hrest, hdefined⟩ := List.forall₂_cons_left_iff.1 hdefined
  rw [List.forall₂_nil_left_iff.1 hrest] at hdefined
  obtain ⟨inner, last, hinner, -⟩ := functionLines_ok hf.lines
  rw [hinner] at haddresses
  have hf : addressNames f.lines = ["gep2", "gep3"] :=
    (functionLines_names hinner hf.lines).2.trans (Option.some.inj haddresses)
  rw [hown, hf] at hnodup
  exact ⟨p, text, hp, hloadable.written, hloadable.values, htext, s, hs, f, hdefined,
    hnodup.2 (by decide), hf⟩

open Backend in
/-- A value with the name of an address, and one with that of the entry block. -/
theorem Program.backendText_localNames_clash : ∃ p text,
    Source.parse ("llvm.func(@f)\x7b%gep1=llvm.constant(1)llvm.store(%gep1,@out,1)\x7d" ++
      "llvm.func(@g)\x7b%entry=llvm.constant(1)\x7d") = .ok p ∧
    p.definedValues.Nodup ∧ p.backendText = .ok text ∧ ∃ s : Sections, text = s.render ∧
      List.Forall₂ (fun d f => f.IsOf d) (functionBodies p.contents) s.defined ∧
      s.defined.map (localNames ·.lines) = [["entry", "gep1", "gep1"], ["entry", "entry"]] := by
  have hsource : ∃ p, Source.parse
        ("llvm.func(@f)\x7b%gep1=llvm.constant(1)llvm.store(%gep1,@out,1)\x7d" ++
          "llvm.func(@g)\x7b%entry=llvm.constant(1)\x7d") = .ok p ∧
      ((functionBodies p.contents).map (fun d =>
        (Layout.forest {} d.2).toOption.map ("entry" :: localNames ·.1)) =
          [some ["entry", "gep1", "gep1"], some ["entry", "entry"]]) ∧
      p.backendText.toOption.any (fun _ => decide True) = true :=
    exists_ok_of_any (by decide +kernel)
  obtain ⟨p, hp, hnames, htext⟩ := hsource
  obtain ⟨text, htext, -⟩ := exists_ok_of_any htext
  obtain ⟨s, hs, hdefined, -⟩ := Backend.backendText_sections (backendText_ok htext)
  refine ⟨p, text, hp, (loadable_of_parse hp).values, htext, s, hs, hdefined, ?_⟩
  have hlocal : s.defined.map (fun f => some (localNames f.lines)) =
      (functionBodies p.contents).map fun d =>
        (Layout.forest {} d.2).toOption.map ("entry" :: localNames ·.1) :=
    map_eq_of_forall₂ (R := fun d f => f.IsOf d) (fun d f hf => by
      obtain ⟨inner, last, hinner, -⟩ := functionLines_ok hf.lines
      rw [hinner, (functionLines_names hinner hf.lines).1]
      rfl) hdefined
  rw [hnames] at hlocal
  refine List.map_injective_iff.2 (Option.some_injective _) ?_
  rw [List.map_map]
  exact hlocal

end TileFlow
