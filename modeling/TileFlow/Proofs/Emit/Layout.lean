import TileFlow.Proofs.Emit.Reading
import TileFlow.Proofs.Emit.Sections

/-!
# How functions are laid out

A list of operations is laid out from a state that knows which block is open and how many names have
been made. A loop or a conditional puts lines before and after what is below it, and leaves another
block open; any other operation has one line, before which there may be one that computes an
address. Names that are made carry the number under which they were made, so that names of different
numbers are different whatever else they are made of.

## Main definitions

* `laidOut`: the operations that have lines.
* `Laid`: a list of operations with its lines and the states before and after them.
* `IsNumbered`: the names that are made between two states.

## Main results

* `Layout.forest_laid`: what a layout does.
* `IsNumbered.nodup_append`: names of one part of a layout are not those of a later one.
-/

namespace TileFlow.Backend

open Text

variable {s s' : Layout} {op : Operation} {ops : Forest Operation} {lines : List Line}
  {low mid high : Nat} {name : String}

/-! ### What lines open, assign and lead to -/

/-- The value that a line assigns. -/
def Line.assigned? : Line → Option String
  | .call result _ _ => result
  | .address result _ _ => some result
  | .load result _ => some result
  | .constant result _ => some result
  | .binary result _ _ _ => some result
  | .phi result _ _ _ _ => some result
  | .lessThan result _ _ => some result
  | .notZero result _ => some result
  | _ => none

/-- Whether a line ends a block. -/
def Line.isTerminator : Line → Bool
  | .branch _ => true
  | .branchIf _ _ _ => true
  | .ret => true
  | _ => false

/-- The blocks that lines open, in order. -/
def labels (lines : List Line) : List String :=
  lines.filterMap (·.label?)

/-- Labels of two lists of lines. -/
@[simp] theorem labels_append (lines later : List Line) :
    labels (lines ++ later) = labels lines ++ labels later :=
  List.filterMap_append

/-- The block that is open after lines, before which another one is. -/
def openBlock (block : String) (lines : List Line) : String :=
  (labels lines).getLastD block

/-- The block that is open after two lists of lines. -/
@[simp] theorem openBlock_append (block : String) (lines later : List Line) :
    openBlock block (lines ++ later) = openBlock (openBlock block lines) later := by
  simp only [openBlock, labels_append, List.getLastD_eq_getLast?, List.getLast?_append]
  cases (labels later).getLast? <;> simp

/-! ### Numbered names -/

/-- The first numeral in a name. -/
def numeralOf (name : String) : List Char :=
  (name.toList.dropWhile (!·.isDigit)).takeWhile Char.isDigit

/-- A name that carries a number above one bound and up to another. -/
def IsNumbered (low high : Nat) (name : String) : Prop :=
  ∃ k, low < k ∧ k ≤ high ∧ numeralOf name = (toString k).toList

/-- Different numbers have different numerals. -/
theorem numeral_injective {k l : Nat} (h : (toString k).toList = (toString l).toList) : k = l := by
  have hdigits : Nat.toDigits 10 k = Nat.toDigits 10 l := by
    rw [← Nat.toList_repr, ← Nat.toList_repr]
    exact h
  rw [← Nat.ofDigitChars_ten_toDigits (n := k), hdigits, Nat.ofDigitChars_ten_toDigits]

/-- The numeral between a text without digits and what does not continue it. -/
theorem numeralOf_append {stem suffix : String} (k : Nat)
    (hstem : stem.toList.all (!·.isDigit) = true)
    (hsuffix : suffix.toList.head?.any Char.isDigit = false) :
    numeralOf (stem ++ toString k ++ suffix) = (toString k).toList := by
  have hdigits : ∀ c ∈ (toString k).toList, c.isDigit = true := fun c => Text.isDigit_of_mem_numeral
  obtain ⟨d, ds, hds⟩ : ∃ d ds, (toString k).toList = d :: ds := by
    refine List.exists_cons_of_ne_nil ?_
    rw [show toString k = Nat.repr k from rfl, Nat.toList_repr]
    exact Nat.toDigits_ne_nil
  have hd : d.isDigit = true := hdigits d (hds ▸ List.mem_cons_self)
  have hrest : suffix.toList.takeWhile Char.isDigit = [] := by
    cases hsplit : suffix.toList with
    | nil => rfl
    | cons c cs => rw [List.takeWhile_cons, if_neg (by simpa [hsplit] using hsuffix)]
  rw [numeralOf, String.toList_append, String.toList_append, List.append_assoc,
    List.dropWhile_append_of_pos (List.all_eq_true.1 hstem), hds, List.cons_append,
    List.dropWhile_cons, if_neg (by simp [hd]), ← List.cons_append, ← hds,
    List.takeWhile_append_of_pos hdigits, hrest, List.append_nil]

/-- The name made from the number after a bound, with nothing after it or a dot. -/
theorem isNumbered_append {stem suffix : String} (hstem : stem.toList.all (!·.isDigit) = true)
    (hsuffix : suffix.toList.head?.any Char.isDigit = false) :
    IsNumbered low (low + 1) (stem ++ toString (low + 1) ++ suffix) :=
  ⟨low + 1, Nat.lt_succ_self _, le_rfl, numeralOf_append _ hstem hsuffix⟩

/-- A number in a range is in every larger range. -/
theorem IsNumbered.mono {low' high' : Nat} (h : IsNumbered low high name) (hlow : low' ≤ low)
    (hhigh : high ≤ high') : IsNumbered low' high' name := by
  obtain ⟨k, hlt, hle, hk⟩ := h
  exact ⟨k, by omega, by omega, hk⟩

/-- Numbers of ranges that follow each other are different. -/
theorem IsNumbered.ne {other : String} (h : IsNumbered low mid name)
    (hother : IsNumbered mid high other) : name ≠ other := by
  rintro rfl
  obtain ⟨k, -, hle, hk⟩ := h
  obtain ⟨l, hlt, -, hl⟩ := hother
  have := numeral_injective (hk.symm.trans hl)
  omega

/-- Names without a number are not made. -/
theorem IsNumbered.numeral_ne_nil (h : IsNumbered low high name) : numeralOf name ≠ [] := by
  obtain ⟨k, -, -, hk⟩ := h
  rw [hk, show toString k = Nat.repr k from rfl, Nat.toList_repr]
  exact Nat.toDigits_ne_nil

/-- Names of one part of a layout are not those of a later one. -/
theorem IsNumbered.nodup_append {names others : List String} (hnames : names.Nodup)
    (hothers : others.Nodup) (h : ∀ n ∈ names, IsNumbered low mid n)
    (h' : ∀ n ∈ others, IsNumbered mid high n) : (names ++ others).Nodup :=
  List.nodup_append.2 ⟨hnames, hothers, fun _ hn _ hn' => (h _ hn).ne (h' _ hn')⟩

/-- Names that are made from the same number and end differently. -/
theorem nodup_numbered (low : Nat) (stem : String) (suffixes : List String)
    (hstem : stem.toList.all (!·.isDigit) = true)
    (hsuffixes : ∀ suffix ∈ suffixes, suffix.toList.head?.any Char.isDigit = false)
    (hnodup : suffixes.Nodup) :
    (suffixes.map (stem ++ toString (low + 1) ++ ·)).Nodup ∧
      ∀ n ∈ suffixes.map (stem ++ toString (low + 1) ++ ·), IsNumbered low (low + 1) n :=
  ⟨hnodup.map fun _ _ => (String.append_right_inj _).1,
    List.forall_mem_map.2 fun suffix hsuffix => isNumbered_append hstem (hsuffixes suffix hsuffix)⟩

/-! ### Operations and their lines -/

/-- The operations that have lines, in program order: what is below an operation has none, unless
the operation is a loop or a conditional. -/
def laidOut : Forest Operation → List Operation
  | .nil => []
  | .cons op children rest =>
    op :: (if op.is "llvm.loop" || op.is "llvm.cond" then laidOut children else []) ++ laidOut rest

/-- What has lines is in the forest. -/
theorem laidOut_sublist (ops : Forest Operation) : (laidOut ops).Sublist ops.preorder := by
  induction ops with
  | nil => exact .slnil
  | cons op children rest ihchildren ihrest =>
      rw [laidOut, Forest.preorder]
      refine (List.Sublist.append ?_ ihrest).cons_cons op
      split
      · exact ihchildren
      · exact List.nil_sublist _

/-- The line of an operation that is neither a loop nor a conditional, apart from the one that may
compute an address for it. -/
inductive IsLineOf (op : Operation) : Line → Prop
  | call (callee : String) (xs : List Operand) (hop : op.is "llvm.call" = true) :
      IsLineOf op (.call op.result callee xs)
  | load (result pointer : String) (hop : op.is "llvm.load" = true)
      (hresult : op.result = some result) : IsLineOf op (.load result pointer)
  | store (value : Operand) (pointer : String) (hop : op.is "llvm.store" = true) :
      IsLineOf op (.store value pointer)
  | constant (result : String) (n : Int) (hop : op.is "llvm.constant" = true)
      (hresult : op.result = some result) : IsLineOf op (.constant result n)
  | ret (hop : op.is "llvm.return" = true) : IsLineOf op .ret
  | binary (result opcode left : String) (a b : Attribute) (right : Operand)
      (hop : binaryOpcode? op.name = some opcode) (hresult : op.result = some result)
      (hoperands : op.operands = [a, b]) (hright : operandOf b = .ok right) :
      IsLineOf op (.binary result opcode left right.name)

/-- The lines of an operation that is neither a loop nor a conditional, and how many names have been
made after them. -/
inductive IsPlain (made : Nat) (op : Operation) : List Line → Nat → Prop
  | single {l : Line} (hl : IsLineOf op l) : IsPlain made op [l] made
  | addressed {l : Line} (base : String) (index : Operand) (hl : IsLineOf op l) :
      IsPlain made op [.address ("gep" ++ toString (made + 1)) base index, l] (made + 1)

/-- The lines that a loop or a conditional puts before and after what is below it, and the block
that is open after the former and after the latter. -/
inductive Encloses (block : String) (made : Nat) (op : Operation) :
    (start : List Line) → (opened : String) → (finish : List Line) → (exit : String) → Prop
  | loop (names : Layout.LoopNames) (lower upper step : Operand) (a b c : Attribute)
      (hop : op.is "llvm.loop" = true) (hname : names.name = "loop" ++ toString (made + 1))
      (hcounter : names.counter = op.result.getD (names.name ++ ".iv"))
      (hoperands : op.operands = [a, b, c]) (hlower : operandOf a = .ok lower) :
      Encloses block made op (Layout.loopStart names block lower upper) names.body
        (Layout.loopEnd names step) names.exit
  | conditional (name : String) (condition : Operand) (hop : op.is "llvm.cond" = true)
      (hname : name = "cond" ++ toString (made + 1)) :
      Encloses block made op (Layout.conditionalStart name condition) (name ++ ".then")
        (Layout.conditionalEnd name) (name ++ ".end")

/-- Operations with their lines, between the block that is open and the number of names made before
them and those after them. -/
inductive Laid : (block : String) → (made : Nat) → Forest Operation → List Line →
    (block' : String) → (made' : Nat) → Prop
  | nil (block : String) (made : Nat) : Laid block made .nil [] block made
  | enclosed {block opened exit inner last : String} {made made' high : Nat} {op : Operation}
      {children rest : Forest Operation} {start finish lines later : List Line}
      (hop : Encloses block made op start opened finish exit)
      (hlines : Laid opened (made + 1) children lines inner made')
      (hlater : Laid exit made' rest later last high) :
      Laid block made (.cons op children rest) (start ++ lines ++ finish ++ later) last high
  | plain {block last : String} {made made' high : Nat} {op : Operation}
      {children rest : Forest Operation} {lines later : List Line}
      (hloop : op.is "llvm.loop" = false) (hcond : op.is "llvm.cond" = false)
      (hop : IsPlain made op lines made') (hlater : Laid block made' rest later last high) :
      Laid block made (.cons op children rest) (lines ++ later) last high

namespace Layout

/-- A pointer has a line if it has an index. -/
theorem pointer_ok {base : Attribute} {index : Option Attribute} {text : String}
    (h : s.pointer base index = .ok (text, lines, s')) :
    (lines = [] ∧ s' = s) ∨ ∃ base index,
      lines = [.address ("gep" ++ toString (s.made + 1)) base index] ∧ s' =
    ⟨s.block, s.made + 1⟩ := by
  obtain ⟨x, -, h⟩ := Except.bind_ok_iff.1 h
  cases index with
  | none =>
      cases h
      exact .inl ⟨rfl, rfl⟩
  | some index =>
      obtain ⟨y, -, h⟩ := Except.bind_ok_iff.1 h
      cases h
      exact .inr ⟨_, _, rfl, rfl⟩

/-- The lines of a pointer before the line that uses it. -/
theorem isPlain_of_pointer {base : Attribute} {index : Option Attribute} {text : String} {l : Line}
    (h : s.pointer base index = .ok (text, lines, s')) (hl : IsLineOf op l) :
    IsPlain s.made op (lines ++ [l]) s'.made ∧ s'.block = s.block := by
  obtain ⟨rfl, rfl⟩ | ⟨base, index, rfl, rfl⟩ := pointer_ok h
  · exact ⟨.single hl, rfl⟩
  · exact ⟨.addressed base index hl, rfl⟩

/-- An operation that is neither a loop nor a conditional. -/
theorem simple_ok (h : s.simple op = .ok (lines, s')) :
    IsPlain s.made op lines s'.made ∧ s'.block = s.block := by
  rw [simple] at h
  split at h
  · rename_i hname
    obtain ⟨callee, -, h⟩ := Except.bind_ok_iff.1 h
    obtain ⟨xs, -, h⟩ := Except.bind_ok_iff.1 h
    cases h
    exact ⟨.single (.call _ _ (beq_iff_eq.2 hname)), rfl⟩
  · rename_i hname
    obtain ⟨result, hresult, h⟩ := Except.bind_ok_iff.1 h
    obtain ⟨base, -, h⟩ := Except.bind_ok_iff.1 h
    obtain ⟨⟨text, lines, s''⟩, hpointer, h⟩ := Except.bind_ok_iff.1 h
    cases h
    exact isPlain_of_pointer hpointer (.load _ _ (beq_iff_eq.2 hname) (require_ok.1 hresult))
  · rename_i hname
    obtain ⟨value, -, h⟩ := Except.bind_ok_iff.1 h
    obtain ⟨base, -, h⟩ := Except.bind_ok_iff.1 h
    obtain ⟨⟨text, lines, s''⟩, hpointer, h⟩ := Except.bind_ok_iff.1 h
    obtain ⟨x, -, h⟩ := Except.bind_ok_iff.1 h
    cases h
    exact isPlain_of_pointer hpointer (.store _ _ (beq_iff_eq.2 hname))
  · rename_i hname
    obtain ⟨result, hresult, h⟩ := Except.bind_ok_iff.1 h
    obtain ⟨n, -, h⟩ := Except.bind_ok_iff.1 h
    cases h
    exact ⟨.single (.constant _ _ (beq_iff_eq.2 hname) (require_ok.1 hresult)), rfl⟩
  · rename_i hname
    cases h
    exact ⟨.single (.ret (beq_iff_eq.2 hname)), rfl⟩
  · obtain ⟨opcode, hopcode, h⟩ := Except.bind_ok_iff.1 h
    obtain ⟨result, hresult, h⟩ := Except.bind_ok_iff.1 h
    split at h
    · rename_i left right hoperands
      obtain ⟨x, -, h⟩ := Except.bind_ok_iff.1 h
      obtain ⟨y, hy, h⟩ := Except.bind_ok_iff.1 h
      cases h
      exact ⟨.single (.binary _ _ _ _ _ _ (require_ok.1 hopcode)
        (require_ok.1 hresult) hoperands hy),
        rfl⟩
    · cases h

/-- What a layout does. -/
theorem forest_laid (h : s.forest ops = .ok (lines, s')) :
    Laid s.block s.made ops lines s'.block s'.made := by
  induction ops generalizing s s' lines with
  | nil =>
      cases h
      exact .nil _ _
  | cons op children rest ihchildren ihrest =>
      rw [forest] at h
      split at h
      · rename_i hop
        obtain ⟨⟨names, lower, upper, step, s₁⟩, hopen, h⟩ := Except.bind_ok_iff.1 h
        obtain ⟨⟨body, inner⟩, hbody, h⟩ := Except.bind_ok_iff.1 h
        obtain ⟨⟨later, last⟩, hlater, h⟩ := Except.bind_ok_iff.1 h
        cases h
        rw [openLoop] at hopen
        split at hopen
        · rename_i a b c hoperands
          obtain ⟨x, hx, hopen⟩ := Except.bind_ok_iff.1 hopen
          obtain ⟨y, -, hopen⟩ := Except.bind_ok_iff.1 hopen
          obtain ⟨z, -, hopen⟩ := Except.bind_ok_iff.1 hopen
          cases hopen
          exact .enclosed (.loop _ _ _ _ a b c hop rfl rfl hoperands hx) (ihchildren hbody)
            (ihrest hlater)
        · cases hopen
      · rename_i hloop
        split at h
        · rename_i hop
          obtain ⟨⟨name, condition, s₁⟩, hopen, h⟩ := Except.bind_ok_iff.1 h
          obtain ⟨⟨body, inner⟩, hbody, h⟩ := Except.bind_ok_iff.1 h
          obtain ⟨⟨later, last⟩, hlater, h⟩ := Except.bind_ok_iff.1 h
          cases h
          obtain ⟨x, -, hopen⟩ := Except.bind_ok_iff.1 hopen
          obtain ⟨y, -, hopen⟩ := Except.bind_ok_iff.1 hopen
          cases hopen
          exact .enclosed (.conditional _ _ hop rfl) (ihchildren hbody) (ihrest hlater)
        · rename_i hcond
          obtain ⟨⟨lines, s₁⟩, hsimple, h⟩ := Except.bind_ok_iff.1 h
          obtain ⟨⟨later, last⟩, hlater, h⟩ := Except.bind_ok_iff.1 h
          cases h
          obtain ⟨hplain, hblock⟩ := simple_ok hsimple
          have hlater := ihrest hlater
          rw [hblock] at hlater
          exact .plain (Bool.eq_false_iff.2 hloop) (Bool.eq_false_iff.2 hcond) hplain hlater

end Layout

/-! ### Names of blocks -/

/-- The lines of a plain operation name linked symbols. -/
theorem IsPlain.isLinked (h : IsPlain low op lines high) : ∀ l ∈ lines, l.IsLinked := by
  have hline : ∀ {l}, IsLineOf op l → l.IsLinked := fun hl => by
    cases hl <;> exact fun _ hname => absurd hname List.not_mem_nil
  cases h with
  | single hl => exact List.forall_mem_singleton.2 (hline hl)
  | addressed base index hl =>
      exact List.forall_mem_cons.2
        ⟨fun _ hname => absurd hname List.not_mem_nil, List.forall_mem_singleton.2 (hline hl)⟩

/-- The blocks of a loop or a conditional have names that are made for blocks. -/
theorem Encloses.isLinked {block opened exit : String} {start finish : List Line}
    (h : Encloses block low op start opened finish exit) (hblock : IsBlockName block) :
    (∀ l ∈ start ++ finish, l.IsLinked) ∧ IsBlockName opened ∧ IsBlockName exit := by
  cases h with
  | loop names lower upper step a b c hop hname =>
      have hstem : IsBlockName names.name := by
        rw [hname]
        exact (by decide : IsBlockName "loop").append (isBlockName_numeral _)
      have hheader := hstem.append (by decide : IsBlockName ".header")
      have hbody := hstem.append (by decide : IsBlockName ".body")
      have hlatch := hstem.append (by decide : IsBlockName ".latch")
      have hexit := hstem.append (by decide : IsBlockName ".exit")
      have hcond := hstem.append (by decide : IsBlockName ".cond")
      refine ⟨?_, hbody, hexit⟩
      simp [Layout.loopStart, Layout.loopEnd, Line.IsLinked, Line.blockNames,
        Layout.LoopNames.header,
        Layout.LoopNames.body, Layout.LoopNames.latch, Layout.LoopNames.exit, hblock, hheader,
          hbody, hlatch,
        hexit, hcond]
  | conditional name condition hop hname =>
      have hstem : IsBlockName name := by
        rw [hname]
        exact (by decide : IsBlockName "cond").append (isBlockName_numeral _)
      have hflag := hstem.append (by decide : IsBlockName ".flag")
      have hthen := hstem.append (by decide : IsBlockName ".then")
      have hend := hstem.append (by decide : IsBlockName ".end")
      refine ⟨?_, hthen, hend⟩
      simp [Layout.conditionalStart, Layout.conditionalEnd, Line.IsLinked, Line.blockNames, hflag,
        hthen, hend]

/-- What is put around the lines of a body stays apart from them. -/
theorem forall_mem_around {P : Line → Prop} {start inner finish later : List Line}
    (haround : ∀ l ∈ start ++ finish, P l) (hinner : ∀ l ∈ inner, P l) (hlater : ∀ l ∈ later, P l) :
    ∀ l ∈ start ++ inner ++ finish ++ later, P l := by
  simp only [List.forall_mem_append] at haround ⊢
  exact ⟨⟨⟨haround.1, hinner⟩, haround.2⟩, hlater⟩

/-- Operations that are laid out in a block of such a name have blocks of such names only. -/
theorem Laid.isLinked {block block' : String} (h : Laid block low ops lines block' high)
    (hblock : IsBlockName block) : ∀ l ∈ lines, l.IsLinked := by
  induction h with
  | nil => exact fun _ hl => absurd hl List.not_mem_nil
  | enclosed hop _ _ ihlines ihlater =>
      obtain ⟨haround, hopened, hexit⟩ := hop.isLinked hblock
      exact forall_mem_around haround (ihlines hopened) (ihlater hexit)
  | plain _ _ hop _ ih => exact List.forall_mem_append.2 ⟨hop.isLinked, ih hblock⟩

/-! ### Names in lines -/

/-- Operations whose names break no line. -/
def AreUnbroken (ops : Forest Operation) : Prop :=
  ∀ op ∈ laidOut ops, ∀ name ∈ namesOf op, IsUnbroken name

instance (ops : Forest Operation) : Decidable (AreUnbroken ops) :=
  inferInstanceAs (Decidable (∀ op ∈ laidOut ops, _))

/-- Operands made from unbroken names are unbroken. -/
theorem isUnbroken_of_operandOf {a : Attribute} {x : Operand} (h : operandOf a = .ok x)
    (ha : ∀ name ∈ nameOf? a, IsUnbroken name) : IsUnbroken x.name := by
  cases a <;> cases h
  case int n => exact isUnbroken_int n
  case symbol symbol => exact (by decide : IsUnbroken "@").append (ha symbol rfl)
  case value value => exact (by decide : IsUnbroken "%").append (ha value rfl)

/-- The opcodes of binary operations are unbroken. -/
theorem isUnbroken_opcode {name opcode : String} (h : binaryOpcode? name = some opcode) :
    IsUnbroken opcode := by
  have hopcodes : ∀ opcode ∈ ["add", "sub", "mul", "and", "or", "xor", "shl"],
      IsUnbroken opcode := by
    decide
  refine hopcodes opcode ?_
  unfold binaryOpcode? at h
  split at h <;> simp_all

/-- The operands of an operation whose names break no line. -/
theorem isUnbroken_operand {a : Attribute} (hop : ∀ name ∈ namesOf op, IsUnbroken name)
    (ha : a ∈ op.operands) :
    ∀ name ∈ nameOf? a, IsUnbroken name := fun name hname =>
  hop name (List.mem_append_right _ (List.mem_filterMap.2 ⟨a, ha, hname⟩))

/-- The texts in a pointer and in the line that computes it. -/
theorem Layout.pointer_isUnbroken {base : Attribute} {index : Option Attribute} {text : String}
    (h : s.pointer base index = .ok (text, lines, s'))
    (hbase : ∀ name ∈ nameOf? base, IsUnbroken name)
    (hindex : ∀ a ∈ index, ∀ name ∈ nameOf? a, IsUnbroken name) :
    IsUnbroken text ∧ ∀ l ∈ lines, ∀ text ∈ l.texts, IsUnbroken text := by
  obtain ⟨x, hx, h⟩ := Except.bind_ok_iff.1 h
  have hx := isUnbroken_of_operandOf hx hbase
  cases index with
  | none =>
      cases h
      exact ⟨hx, fun _ hl => absurd hl List.not_mem_nil⟩
  | some index =>
      obtain ⟨y, hy, h⟩ := Except.bind_ok_iff.1 h
      cases h
      have hname : IsUnbroken ("gep" ++ toString (s.made + 1)) :=
        (by decide : IsUnbroken "gep").append (IsBlockName.isUnbroken (isBlockName_numeral _))
      refine ⟨(by decide : IsUnbroken "%").append hname, List.forall_mem_singleton.2 ?_⟩
      simpa [Line.texts] using ⟨hname, hx, isUnbroken_of_operandOf hy (hindex index rfl)⟩

/-- The texts in the lines of an operation that is neither a loop nor a conditional. -/
theorem Layout.simple_isUnbroken (h : s.simple op = .ok (lines, s'))
    (hop : ∀ name ∈ namesOf op, IsUnbroken name) :
    ∀ l ∈ lines, ∀ text ∈ l.texts, IsUnbroken text := by
  have hresult : ∀ result ∈ op.result, IsUnbroken result := fun result hresult =>
    hop _ (List.mem_append_left _ (Option.mem_toList.2 hresult))
  have hoperand : ∀ i : Nat, ∀ a ∈ op.operands[i]?, ∀ name ∈ nameOf? a, IsUnbroken name :=
    fun i a ha => isUnbroken_operand hop (List.mem_of_getElem? ha)
  rw [simple] at h
  split at h
  · obtain ⟨callee, hcallee, h⟩ := Except.bind_ok_iff.1 h
    obtain ⟨xs, hxs, h⟩ := Except.bind_ok_iff.1 h
    cases h
    have hcallee : IsUnbroken callee := by
      obtain ⟨a, ha, hsymbol⟩ := Option.bind_eq_some_iff.1 (require_ok.1 hcallee)
      cases a <;> cases hsymbol
      exact hoperand 0 _ ha _ rfl
    have hxs : ∀ x ∈ xs, IsUnbroken x.name := fun x hx => by
      obtain ⟨a, ha, hax⟩ := Except.exists_of_mem_mapM hxs hx
      exact isUnbroken_of_operandOf hax (isUnbroken_operand hop (List.mem_of_mem_drop ha))
    refine List.forall_mem_singleton.2 (List.forall_mem_append.2 ⟨fun result hmem => ?_, ?_⟩)
    · exact hresult result (Option.mem_toList.1 hmem)
    · exact List.forall_mem_cons.2 ⟨hcallee, List.forall_mem_map.2 hxs⟩
  · obtain ⟨result, hname, h⟩ := Except.bind_ok_iff.1 h
    obtain ⟨base, hbase, h⟩ := Except.bind_ok_iff.1 h
    obtain ⟨⟨text, lines, s''⟩, hpointer, h⟩ := Except.bind_ok_iff.1 h
    cases h
    obtain ⟨htext, hlines⟩ := pointer_isUnbroken hpointer (hoperand 0 _ (require_ok.1 hbase))
      (hoperand 1)
    refine List.forall_mem_append.2 ⟨hlines, List.forall_mem_singleton.2 ?_⟩
    simpa [Line.texts] using ⟨hresult _ (require_ok.1 hname), htext⟩
  · obtain ⟨value, hvalue, h⟩ := Except.bind_ok_iff.1 h
    obtain ⟨base, hbase, h⟩ := Except.bind_ok_iff.1 h
    obtain ⟨⟨text, lines, s''⟩, hpointer, h⟩ := Except.bind_ok_iff.1 h
    obtain ⟨x, hx, h⟩ := Except.bind_ok_iff.1 h
    cases h
    obtain ⟨htext, hlines⟩ := pointer_isUnbroken hpointer (hoperand 1 _ (require_ok.1 hbase))
      (hoperand 2)
    refine List.forall_mem_append.2 ⟨hlines, List.forall_mem_singleton.2 ?_⟩
    simpa [Line.texts] using
      ⟨isUnbroken_of_operandOf hx (hoperand 0 _ (require_ok.1 hvalue)), htext⟩
  · obtain ⟨result, hname, h⟩ := Except.bind_ok_iff.1 h
    obtain ⟨n, -, h⟩ := Except.bind_ok_iff.1 h
    cases h
    simpa [Line.texts] using hresult _ (require_ok.1 hname)
  · cases h
    simp [Line.texts]
  · obtain ⟨opcode, hopcode, h⟩ := Except.bind_ok_iff.1 h
    obtain ⟨result, hname, h⟩ := Except.bind_ok_iff.1 h
    split at h
    · rename_i left right hoperands
      obtain ⟨x, hx, h⟩ := Except.bind_ok_iff.1 h
      obtain ⟨y, hy, h⟩ := Except.bind_ok_iff.1 h
      cases h
      have hleft := isUnbroken_of_operandOf hx (hoperand 0 left (by rw [hoperands]; rfl))
      have hright := isUnbroken_of_operandOf hy (hoperand 1 right (by rw [hoperands]; rfl))
      have hopcode := isUnbroken_opcode (require_ok.1 hopcode)
      simpa [Line.texts] using ⟨hresult _ (require_ok.1 hname), hopcode, hleft, hright⟩
    · cases h

/-- The names of a loop, and its bounds. -/
theorem Layout.openLoop_isUnbroken {names : LoopNames} {lower upper step : Operand}
    (h : s.openLoop op = .ok (names, lower, upper, step, s'))
    (hop : ∀ name ∈ namesOf op, IsUnbroken name) :
    IsUnbroken names.name ∧ IsUnbroken names.counter ∧ IsUnbroken lower.name ∧
      IsUnbroken upper.name ∧ IsUnbroken step.name := by
  rw [openLoop] at h
  split at h
  · rename_i a b c hoperands
    obtain ⟨x, hx, h⟩ := Except.bind_ok_iff.1 h
    obtain ⟨y, hy, h⟩ := Except.bind_ok_iff.1 h
    obtain ⟨z, hz, h⟩ := Except.bind_ok_iff.1 h
    cases h
    have hname : IsUnbroken ("loop" ++ toString (s.made + 1)) :=
      (by decide : IsUnbroken "loop").append (IsBlockName.isUnbroken (isBlockName_numeral _))
    have hoperand : ∀ a ∈ op.operands, ∀ name ∈ nameOf? a, IsUnbroken name := fun a ha =>
      isUnbroken_operand hop ha
    refine ⟨hname, ?_, isUnbroken_of_operandOf hx (hoperand a ?_),
      isUnbroken_of_operandOf hy (hoperand b ?_), isUnbroken_of_operandOf hz (hoperand c ?_)⟩
    · cases hresult : op.result with
      | none => exact hname.append (by decide)
      | some result => exact hop result (by simp [namesOf, hresult])
    all_goals simp [hoperands]
  · cases h

/-- The name of a conditional, and its condition. -/
theorem Layout.openConditional_isUnbroken {name : String} {condition : Operand}
    (h : s.openConditional op = .ok (name, condition, s'))
    (hop : ∀ name ∈ namesOf op, IsUnbroken name) :
    IsUnbroken name ∧ IsUnbroken condition.name := by
  obtain ⟨a, ha, h⟩ := Except.bind_ok_iff.1 h
  obtain ⟨x, hx, h⟩ := Except.bind_ok_iff.1 h
  cases h
  exact ⟨(by decide : IsUnbroken "cond").append (IsBlockName.isUnbroken (isBlockName_numeral _)),
    isUnbroken_of_operandOf hx (isUnbroken_operand hop (List.mem_of_getElem? (require_ok.1 ha)))⟩

/-- The texts in the lines around the body of a loop. -/
theorem Layout.loop_isUnbroken {names : LoopNames} {block : String} {lower upper step : Operand}
    (hname : IsUnbroken names.name) (hcounter : IsUnbroken names.counter)
    (hblock : IsUnbroken block)
    (hlower : IsUnbroken lower.name) (hupper : IsUnbroken upper.name)
    (hstep : IsUnbroken step.name) :
    ∀ l ∈ loopStart names block lower upper ++ loopEnd names step, ∀ text ∈ l.texts,
    IsUnbroken text := by
  have hblocks : ∀ suffix ∈ [".header", ".body", ".latch", ".exit", ".next", ".cond"],
      IsUnbroken (names.name ++ suffix) := fun suffix hsuffix =>
    hname.append ((by decide : ∀ suffix ∈ [".header", ".body", ".latch", ".exit", ".next", ".cond"],
      IsUnbroken suffix) suffix hsuffix)
  have hvariable : IsUnbroken ("%" ++ names.counter) :=
    (by decide : IsUnbroken "%").append hcounter
  have hadd : IsUnbroken "add" := by decide
  simp only [List.mem_cons, List.not_mem_nil, or_false, forall_eq_or_imp, forall_eq] at hblocks
  simp [loopStart, loopEnd, Line.texts, LoopNames.header, LoopNames.body, LoopNames.latch,
    LoopNames.exit, hblocks, hvariable, hadd, hcounter, hblock, hlower, hupper, hstep]

/-- The texts in the lines around the body of a conditional. -/
theorem Layout.conditional_isUnbroken {name : String} {condition : Operand}
    (hname : IsUnbroken name)
    (hcondition : IsUnbroken condition.name) :
    ∀ l ∈ conditionalStart name condition ++ conditionalEnd name, ∀ text ∈ l.texts,
      IsUnbroken text := by
  have hflag := hname.append (by decide : IsUnbroken ".flag")
  have hthen := hname.append (by decide : IsUnbroken ".then")
  have hend := hname.append (by decide : IsUnbroken ".end")
  simp [conditionalStart, conditionalEnd, Line.texts, hflag, hthen, hend, hcondition]

/-- The texts in the lines of operations whose names break no line. -/
theorem Layout.forest_isUnbroken (h : s.forest ops = .ok (lines, s')) (hs : IsUnbroken s.block)
    (hops : AreUnbroken ops) :
    IsUnbroken s'.block ∧ ∀ l ∈ lines, ∀ text ∈ l.texts, IsUnbroken text := by
  induction ops generalizing s s' lines with
  | nil =>
      cases h
      exact ⟨hs, fun _ hl => absurd hl List.not_mem_nil⟩
  | cons op children rest ihchildren ihrest =>
      have hop := hops op List.mem_cons_self
      have hrest : AreUnbroken rest := fun o ho =>
        hops o (List.mem_cons_of_mem _ (List.mem_append_right _ ho))
      have hchildren : (op.is "llvm.loop" || op.is "llvm.cond") = true → AreUnbroken children :=
        fun hinside o ho =>
          hops o (List.mem_cons_of_mem _ (List.mem_append_left _ (by rwa [if_pos hinside])))
      rw [forest] at h
      split at h
      · rename_i hloop
        obtain ⟨⟨names, lower, upper, step, s₁⟩, hopen, h⟩ := Except.bind_ok_iff.1 h
        obtain ⟨⟨body, inner⟩, hbody, h⟩ := Except.bind_ok_iff.1 h
        obtain ⟨⟨later, last⟩, hlater, h⟩ := Except.bind_ok_iff.1 h
        cases h
        have hinside := hchildren (by rw [hloop, Bool.true_or])
        obtain ⟨hname, hcounter, hlower, hupper, hstep⟩ := openLoop_isUnbroken hopen hop
        obtain ⟨-, hinner⟩ := ihchildren hbody (hname.append (by decide)) hinside
        obtain ⟨hlast, hlater⟩ := ihrest hlater (hname.append (by decide)) hrest
        exact ⟨hlast, forall_mem_around (loop_isUnbroken hname hcounter hs hlower hupper hstep)
          hinner
          hlater⟩
      · split at h
        · rename_i hcond
          obtain ⟨⟨name, condition, s₁⟩, hopen, h⟩ := Except.bind_ok_iff.1 h
          obtain ⟨⟨body, inner⟩, hbody, h⟩ := Except.bind_ok_iff.1 h
          obtain ⟨⟨later, last⟩, hlater, h⟩ := Except.bind_ok_iff.1 h
          cases h
          have hinside := hchildren (by rw [hcond, Bool.or_true])
          obtain ⟨hname, hcondition⟩ := openConditional_isUnbroken hopen hop
          obtain ⟨-, hinner⟩ := ihchildren hbody (hname.append (by decide)) hinside
          obtain ⟨hlast, hlater⟩ := ihrest hlater (hname.append (by decide)) hrest
          exact ⟨hlast, forall_mem_around (conditional_isUnbroken hname hcondition) hinner hlater⟩
        · obtain ⟨⟨lines, s₁⟩, hsimple, h⟩ := Except.bind_ok_iff.1 h
          obtain ⟨⟨later, last⟩, hlater, h⟩ := Except.bind_ok_iff.1 h
          cases h
          obtain ⟨hlast, hlater⟩ := ihrest hlater ((simple_ok hsimple).2 ▸ hs) hrest
          exact ⟨hlast, List.forall_mem_append.2 ⟨simple_isUnbroken hsimple hop, hlater⟩⟩

/-- The lines of a function whose names break no line. -/
theorem functionLines_isUnbroken {body : Forest Operation} (h : functionLines body = .ok lines)
    (hbody : AreUnbroken body) : ∀ l ∈ lines, IsUnbroken l.render := by
  obtain ⟨⟨inner, last⟩, hinner, h⟩ := Except.bind_ok_iff.1 h
  cases h
  have hlines := (Layout.forest_isUnbroken hinner (by decide) hbody).2
  refine List.forall_mem_append.2
    ⟨List.forall_mem_cons.2 ⟨(by decide : IsUnbroken "entry:"), fun l hl =>
    Line.isUnbroken_render (hlines l hl)⟩, fun l hl => ?_⟩
  split at hl
  · cases hl
  · rw [List.mem_singleton.1 hl]
    exact (by decide : IsUnbroken "  ret void")

end TileFlow.Backend
