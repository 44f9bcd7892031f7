import Mathlib.Algebra.BigOperators.Group.List.Basic
import Mathlib.Algebra.GroupWithZero.Nat
import Mathlib.Data.List.Chain
import Mathlib.Data.List.DropRight
import TileFlow.Proofs.Emit.ControlFlow
import TileFlow.Proofs.Source.Written

/-!
# Terminators of blocks

A loop or a conditional branches once for each block that it opens, and the entry block of a
function gets a return unless the text of the function ends with one. Every block ends with a branch
or a return therefore. Nothing is kept from coming after a return, though: a return inside a loop or
a conditional, or before other operations, is followed by more lines of its block.

## Main definitions

* `blocks`: the basic blocks of lines.
* `Line.EndsApart`: lines whose text can be told from a return by its end.
* `Continues`: lines in which blocks open after the end of others.
* `ReturnsLast`: functions that return at most once, and at the end.

## Main results

* `functionLines_terminated`: the terminators of the blocks of a function.
* `Program.backendText_terminated`: those of the functions in the text of a program.
-/

namespace TileFlow

/-! ### Blanks -/

/-- No visible character of ASCII is blank. -/
theorem Text.not_isBlank {c : Char} (h : 0x20 < c.toNat) (h' : c.toNat < 0x80) :
    Text.isBlank c = false := by
  have hall : ∀ n : Fin 0x80, 0x20 < n.val → isBlank (Char.ofNat n) = false := by decide +kernel
  simpa [Char.ofNat_toNat] using hall ⟨c.toNat, h'⟩ h

/-- The characters of a symbol are no blanks. -/
theorem Source.not_isBlank_of_isSymbolChar {c : Char} (h : isSymbolChar c = true) :
    Text.isBlank c = false := by
  have hrange : ∀ {a b : UInt32}, a ≤ c.val → c.val ≤ b → 0x20 < a.toNat → b.toNat < 0x80 →
      Text.isBlank c = false := fun ha hb ha' hb' =>
    Text.not_isBlank (ha'.trans_le (UInt32.le_iff_toNat_le.1 ha))
      ((UInt32.le_iff_toNat_le.1 hb).trans_lt hb')
  have hmark : ∀ {d : Char}, (c == d) = true → Text.isBlank d = false → Text.isBlank c = false :=
    fun hd hblank => beq_iff_eq.1 hd ▸ hblank
  obtain h | h := Bool.or_eq_true_iff.1 h
  · obtain h | h := Bool.or_eq_true_iff.1 h
    · obtain h | h := Bool.or_eq_true_iff.1 h
      · -- Letters and digits are in three ranges.
        obtain h | h := Bool.or_eq_true_iff.1 h
        · obtain h | h := Bool.or_eq_true_iff.1 h
          · obtain ⟨hlow, hhigh⟩ := of_decide_eq_true h
            exact hrange hlow hhigh (by decide) (by decide)
          · obtain ⟨hlow, hhigh⟩ := Bool.and_eq_true_iff.1 h
            exact hrange (of_decide_eq_true hlow) (of_decide_eq_true hhigh) (by decide) (by decide)
        · obtain ⟨hlow, hhigh⟩ := Bool.and_eq_true_iff.1 h
          exact hrange (of_decide_eq_true hlow) (of_decide_eq_true hhigh) (by decide) (by decide)
      · exact hmark h (by decide +kernel)
    · exact hmark h (by decide +kernel)
  · exact hmark h (by decide +kernel)

namespace Backend

variable {op : Operation} {ops : Forest Operation} {lines start finish : List Line} {l : Line}
  {block block' opened exit : String} {made made' : Nat}

/-! ### The end of a text -/

/-- The text of two lists of lines. -/
theorem renderLines_append (lines later : List Line) :
    renderLines (lines ++ later) = renderLines lines ++ renderLines later := by
  rw [renderLines, List.map_append, String.join_append, renderLines, renderLines]

/-- The text of lines without the blanks at its end. -/
theorem trimEnd_renderLines (hlast : ∃ c ∈ l.render.toList.getLast?, Text.isBlank c = false) :
    (Text.trimEnd (renderLines (lines ++ [l]))).toList =
      (renderLines lines).toList ++ l.render.toList := by
  obtain ⟨c, hc, hblank⟩ := hlast
  obtain ⟨cs, hcs⟩ := List.getLast?_eq_some_iff.1 hc
  have hrender : (renderLines (lines ++ [l])).toList =
      ((renderLines lines).toList ++ cs ++ [c]) ++ ['\n'] := by
    rw [renderLines_append, String.toList_append, show renderLines [l] = l.render ++ "\n" by
      simp [renderLines], String.toList_append, hcs]
    simp
  rw [Text.trimEnd, String.toList_ofList, hrender]
  change List.rdropWhile Text.isBlank _ = _
  rw [List.rdropWhile_concat_pos _ _ _ (by decide +kernel),
    List.rdropWhile_concat_neg _ _ _ (by simp [hblank]), hcs, List.append_assoc]

/-- The end of the text of a line, if it can be told from a return. -/
structure Line.EndsApart (l : Line) (tail : String) : Prop where
  render : ∃ text, l.render = text ++ tail
  visible : ∃ c ∈ tail.toList.getLast?, Text.isBlank c = false
  own : ¬ tail.toList ⊆ "ret void".toList
  lacks : ¬ "ret void".toList ⊆ tail.toList

/-- A line that ends in something else does not end in `ret void`. -/
theorem Line.EndsApart.not_suffix {tail : String} (h : l.EndsApart tail) (cs : List Char) :
    ¬ "ret void".toList <:+ cs ++ l.render.toList := by
  intro hsuffix
  obtain ⟨text, hrender⟩ := h.render
  have htail : tail.toList <:+ cs ++ l.render.toList := by
    rw [hrender, String.toList_append, ← List.append_assoc]
    exact List.suffix_append _ _
  rcases List.suffix_or_suffix_of_suffix hsuffix htail with hpart | hpart
  · exact h.lacks hpart.subset
  · exact h.own hpart.subset

/-- Whether the text of lines ends in a return can be told from the last line. -/
theorem endsWith_renderLines (hlast : l = .ret ∨ ∃ tail, l.EndsApart tail) :
    (Text.trimEnd (renderLines (lines ++ [l]))).endsWith "ret void" = decide (l = .ret) := by
  have hends : ∀ s t : String, s.endsWith t = true ↔ t.toList <:+ s.toList := fun s t => by
    rw [String.endsWith, String.Slice.endsWith_string_iff]
    simp
  rw [Bool.eq_iff_iff, hends, decide_eq_true_iff]
  rcases hlast with rfl | ⟨tail, hl⟩
  · rw [trimEnd_renderLines ⟨'d', rfl, by decide +kernel⟩]
    exact iff_of_true ((by decide : "ret void".toList <:+ Line.ret.render.toList).trans
      (List.suffix_append _ _)) rfl
  · obtain ⟨text, hrender⟩ := hl.render
    obtain ⟨c, hc, hblank⟩ := hl.visible
    rw [trimEnd_renderLines ⟨c, by
      rw [hrender, String.toList_append, List.getLast?_append, hc]
      rfl, hblank⟩]
    refine iff_of_false (hl.not_suffix _) fun hret => ?_
    subst hret
    exact hl.not_suffix [] (by decide)

/-- A text without blanks and with a character that is not in a return. -/
structure IsApart (word : String) : Prop where
  own : ¬ word.toList ⊆ "ret void".toList
  visible : ∀ c ∈ word.toList, Text.isBlank c = false

/-- A number has a digit, and nothing but digits and a sign. -/
theorem toString_int_chars (n : Int) : (∃ c ∈ (toString n).toList, c.isDigit = true) ∧
    ∀ c ∈ (toString n).toList, c = '-' ∨ c.isDigit = true := by
  have hnat : ∀ m : Nat, ∃ c ∈ (toString m).toList, c.isDigit = true := fun m => by
    obtain ⟨c, cs, hcs⟩ := List.exists_cons_of_ne_nil (Nat.toDigits_ne_nil (n := m) (b := 10))
    have hc : c ∈ (toString m).toList := by
      rw [show toString m = Nat.repr m from rfl, Nat.toList_repr, hcs]
      exact List.mem_cons_self
    exact ⟨c, hc, Text.isDigit_of_mem_numeral hc⟩
  rw [Int.toString_eq_repr, Int.repr_eq_if]
  split
  · exact ⟨hnat _, fun c hc => .inr (Text.isDigit_of_mem_numeral hc)⟩
  · rw [String.toList_append]
    obtain ⟨c, hc, hdigit⟩ := hnat (-n).toNat
    refine ⟨⟨c, List.mem_append_right _ hc, hdigit⟩, fun c hc => ?_⟩
    exact (List.mem_append.1 hc).imp List.mem_singleton.1 Text.isDigit_of_mem_numeral

/-- A text without blanks that is no part of a return is apart from one. -/
theorem Line.EndsApart.of_word {text word : String} (hrender : l.render = text ++ word)
    (hword : IsApart word) : l.EndsApart word := by
  obtain ⟨hown, hblank⟩ := hword
  have hnonempty : word.toList ≠ [] := fun hnil => hown (hnil ▸ List.nil_subset _)
  obtain ⟨last, hlast⟩ := Option.ne_none_iff_exists'.1 (mt List.getLast?_eq_none_iff.1 hnonempty)
  refine ⟨⟨text, hrender⟩, ⟨last, hlast, hblank last (List.mem_of_getLast? hlast)⟩, hown,
    fun hsubset => ?_⟩
  have := hblank ' ' (hsubset (by decide))
  revert this
  decide +kernel

/-- A number is no part of a return. -/
theorem isApart_int (n : Int) : IsApart (toString n) := by
  obtain ⟨⟨c, hc, hdigit⟩, hall⟩ := toString_int_chars n
  constructor
  · have hnone : "ret void".toList.any Char.isDigit = false := by decide
    exact fun hsubset => List.any_eq_false.1 hnone c (hsubset hc) hdigit
  · intro c hc
    rcases hall c hc with rfl | hdigit
    · decide +kernel
    · exact Source.not_isBlank_of_isSymbolChar (by
        simp [Source.isSymbolChar, Source.isWordChar, Char.isAlphanum, hdigit])

/-- Neither is an operand that can be written. -/
theorem isApart_operandOf {a : Attribute} {x : Operand} (h : operandOf a = .ok x)
    (ha : a.IsWrittenOperand) : IsApart x.name := by
  have hsigil : ∀ (sigil : Char) (s : String), sigil ∉ "ret void".toList →
      Text.isBlank sigil = false → (∀ c ∈ s.toList, Source.isSymbolChar c = true) →
      IsApart (String.singleton sigil ++ s) := by
    intro sigil s hown hblank hs
    constructor <;> rw [String.toList_append, String.toList_singleton]
    · exact fun hsubset => hown (hsubset List.mem_cons_self)
    · exact List.forall_mem_cons.2
        ⟨hblank, fun c hc => Source.not_isBlank_of_isSymbolChar (hs c hc)⟩
  cases a with
  | int n =>
      cases h
      exact isApart_int n
  | symbol s =>
      cases h
      exact hsigil '@' s (by decide) (by decide +kernel) ha.symbol.2
  | value s =>
      cases h
      exact hsigil '%' s (by decide) (by decide +kernel) fun c hc => by
        simp [Source.isSymbolChar, ha.value.2 c hc]
  | str s => cases h
  | ident s => cases h
  | array items => cases h

/-- The line of an operation that can be written is a return or can be told from one. -/
theorem IsLineOf.endsApart (h : IsLineOf op l) (hop : op.IsWritten) :
    l = .ret ∨ ∃ tail, l.EndsApart tail := by
  cases h with
  | ret => exact .inl rfl
  | call callee xs =>
      refine .inr ⟨")", ?_, ⟨')', rfl, by decide +kernel⟩, by decide, by decide⟩
      cases op.result <;> exact ⟨_, rfl⟩
  | load result pointer =>
      exact .inr ⟨", align 4", ⟨_, rfl⟩, ⟨'4', rfl, by decide +kernel⟩, by decide, by decide⟩
  | store value pointer =>
      exact .inr ⟨", align 4", ⟨_, rfl⟩, ⟨'4', rfl, by decide +kernel⟩, by decide, by decide⟩
  | constant result n => exact .inr ⟨toString n, .of_word rfl (isApart_int n)⟩
  | binary result opcode left a b right _ _ hoperands hright =>
      refine .inr ⟨right.name, .of_word rfl (isApart_operandOf hright (hop.operands b ?_))⟩
      rw [hoperands]
      simp

/-! ### The last line -/

/-- The last line of what encloses is the label of its exit. -/
theorem Encloses.finish_eq (h : Encloses block made op start opened finish exit) :
    ∃ front, finish = front ++ [.label exit] := by
  cases h with
  | loop names lower upper step => exact ⟨(Layout.loopEnd names step).take 4, rfl⟩
  | conditional name => exact ⟨(Layout.conditionalEnd name).take 1, rfl⟩

/-- The last line of a plain operation is the one that stands for it. -/
theorem IsPlain.lines_eq (h : IsPlain made op lines made') :
    ∃ front l, lines = front ++ [l] ∧ IsLineOf op l := by
  cases h with
  | single hl => exact ⟨[], _, rfl, hl⟩
  | addressed base index hl => exact ⟨[_], _, rfl, hl⟩

/-- Neither a loop nor a conditional is a return. -/
theorem Encloses.not_return (h : Encloses block made op start opened finish exit) :
    op.is "llvm.return" = false := by
  rcases Bool.or_eq_true_iff.1 h.is with hop | hop <;>
    exact Operation.not_is_of_is hop (by decide)

/-- The last line of operations is the label after a loop or a conditional, or the line of the last
operation. -/
theorem Laid.last_line (h : Laid block made ops lines block' made') :
    (lines = [] ∧ ops.roots = []) ∨ ∃ front l op, lines = front ++ [l] ∧
      ops.roots.getLast? = some op ∧
      ((∃ name, l = .label name) ∧ op.is "llvm.return" = false ∨ IsLineOf op l) := by
  induction h with
  | nil => exact .inl ⟨rfl, rfl⟩
  | @enclosed _ _ exit _ _ _ _ _ op _ rest start finish lines later hop _ hlater _ ih =>
      right
      obtain ⟨rfl, hrest⟩ | ⟨front, l, op', rfl, hrest, hl⟩ := ih
      · obtain ⟨front, rfl⟩ := hop.finish_eq
        refine ⟨start ++ lines ++ front, .label exit, op, ?_, ?_,
          .inl ⟨⟨exit, rfl⟩, hop.not_return⟩⟩
        · rw [List.append_nil, ← List.append_assoc]
        · rw [Forest.roots, hrest, List.getLast?_singleton]
      · refine ⟨start ++ lines ++ finish ++ front, l, op', by simp, ?_, hl⟩
        rw [Forest.roots, List.getLast?_cons, hrest, Option.getD_some]
  | @plain _ _ _ _ _ op _ rest lines later _ _ hop hlater ih =>
      right
      obtain ⟨rfl, hrest⟩ | ⟨front, l, op', rfl, hrest, hl⟩ := ih
      · obtain ⟨front, l, rfl, hl⟩ := hop.lines_eq
        refine ⟨front, l, op, by simp, ?_, .inr hl⟩
        rw [Forest.roots, hrest, List.getLast?_singleton]
      · refine ⟨lines ++ front, l, op', by simp, ?_, hl⟩
        rw [Forest.roots, List.getLast?_cons, hrest, Option.getD_some]

/-- Of the lines of operations, those of returns are returns. -/
theorem IsLineOf.eq_ret_iff (h : IsLineOf op l) : l = .ret ↔ op.is "llvm.return" = true := by
  have hother : ∀ name, op.is name = true → name ≠ "llvm.return" → op.is "llvm.return" = false :=
    fun name hname hne => Operation.not_is_of_is hname hne
  cases h with
  | ret hop => simp [hop]
  | call _ _ hop => simp [hother _ hop]
  | load _ _ hop => simp [hother _ hop]
  | store _ _ hop => simp [hother _ hop]
  | constant _ _ hop => simp [hother _ hop]
  | binary _ _ _ _ _ _ hop =>
      refine iff_of_false (by simp) fun hret => ?_
      rw [show op.name = _ from beq_iff_eq.1 hret] at hop
      cases hop

/-! ### Terminators -/

/-- Whether one line may come after another: a block opens after the end of another one. -/
def MayFollow (l l' : Line) : Prop :=
  l'.label?.isSome = true → l.isTerminator = true

/-- Only a return becomes a line that ends a block for good. -/
theorem IsLineOf.isTerminator (h : IsLineOf op l) : l.isTerminator = op.is "llvm.return" := by
  have heq := h.eq_ret_iff
  cases h with
  | ret hop => exact hop.symm
  | _ =>
      exact (Bool.eq_false_iff.2 fun hop => by cases heq.2 hop).symm

/-- Lines in which blocks open after the end of others, and that do not begin with a label. -/
structure Continues (lines : List Line) : Prop where
  chain : lines.IsChain MayFollow
  head : ∀ l ∈ lines.head?, l.label? = none

/-- Two lists of lines in a row whose blocks go on. -/
theorem Continues.append {later : List Line} (h : Continues lines) (h' : Continues later) :
    Continues (lines ++ later) where
  chain := List.isChain_append.2 ⟨h.chain, h'.chain, fun _ _ l hl hopens => by
    rw [h'.head l hl] at hopens
    cases hopens⟩
  head l hl := by
    rw [List.head?_append] at hl
    cases hfirst : lines.head? with
    | none =>
        rw [hfirst] at hl
        exact h'.head l hl
    | some l' =>
        rw [hfirst] at hl
        cases hl
        exact h.head l hfirst

/-- Lines without label go on in their block. -/
theorem Continues.of_straight (h : ∀ l ∈ lines, l.label? = none) : Continues lines where
  chain := (List.pairwise_of_forall_mem_list fun _ _ l hl hopens => by
    rw [h l hl] at hopens
    cases hopens).isChain
  head l hl := h l (List.mem_of_mem_head? hl)

/-- What a loop or a condition adds goes on from block to block. -/
theorem Encloses.continues (h : Encloses block made op start opened finish exit) :
    Continues start ∧ Continues finish := by
  cases h with
  | loop names lower upper step =>
      constructor <;> constructor <;>
        simp [Layout.loopStart, Layout.loopEnd, MayFollow, Line.label?, Line.isTerminator]
  | conditional name condition =>
      constructor <;> constructor <;>
        simp [Layout.conditionalStart, Layout.conditionalEnd, MayFollow, Line.label?,
          Line.isTerminator]

/-- A loop or a conditional branches as often as it opens blocks. -/
theorem Encloses.countP (h : Encloses block made op start opened finish exit) :
    start.countP (·.isTerminator) = (labels start).length ∧
      finish.countP (·.isTerminator) = (labels finish).length := by
  cases h <;> exact ⟨rfl, rfl⟩

/-- A plain operation ends a block for good only if it is a return. -/
theorem IsPlain.countP (h : IsPlain made op lines made') :
    lines.countP (·.isTerminator) = if op.is "llvm.return" then 1 else 0 := by
  cases h with
  | single hl => rw [List.countP_singleton, hl.isTerminator]
  | addressed base index hl =>
      rw [List.countP_cons, List.countP_singleton, hl.isTerminator]
      rfl

/-- Blocks of operations open after the end of others. -/
theorem Laid.continues (h : Laid block made ops lines block' made') : Continues lines := by
  induction h with
  | nil => exact .of_straight fun _ hl => absurd hl List.not_mem_nil
  | enclosed hop _ _ ihlines ihlater =>
      exact ((hop.continues.1.append ihlines).append hop.continues.2).append ihlater
  | plain _ _ hop _ ih => exact (Continues.of_straight fun l hl => (hop.straight l hl).1).append ih

/-- The terminators of operations: one for each block that they open, and their returns. -/
theorem Laid.countP_isTerminator (h : Laid block made ops lines block' made') :
    lines.countP (·.isTerminator) =
      (labels lines).length + (laidOut ops).countP (·.is "llvm.return") := by
  induction h with
  | nil => rfl
  | @enclosed _ _ _ _ _ _ _ _ op _ _ start finish lines later hop _ _ ihlines ihlater =>
      rw [laidOut, hop.is, if_pos rfl]
      simp only [List.countP_append, List.countP_cons, labels_append, List.length_append,
        hop.countP.1, hop.countP.2, ihlines, ihlater, hop.not_return]
      simp
      omega
  | @plain _ _ _ _ _ op _ rest lines later hloop hcond hop hlater ih =>
      rw [laidOut, hloop, hcond]
      simp only [List.countP_append, List.countP_cons, labels_append, List.length_append,
        hop.countP, hop.labels_eq_nil, ih]
      simp
      omega

/-! ### Blocks -/

/-- A label ends no block for good. -/
theorem isTerminator_of_label {name : String} (h : l.label? = some name) :
    l.isTerminator = false := by
  cases l <;> first | rfl | cases h

/-- A basic block: its label, and the lines from there to the next label. -/
structure Block where
  label : String
  lines : List Line
  deriving DecidableEq, Repr

/-- The basic blocks of lines. -/
def blocks : List Line → List Block
  | [] => []
  | l :: rest =>
    match l.label? with
    | some name => ⟨name, rest.takeWhile (·.label?.isNone)⟩ :: blocks rest
    | none => blocks rest

/-- A label begins a block that lasts to the next label. -/
theorem blocks_label {name : String} {lines : List Line} (h : l.label? = some name) :
    blocks (l :: lines) = ⟨name, lines.takeWhile (·.label?.isNone)⟩ :: blocks lines := by
  rw [blocks, h]

/-- A line without label begins no block. -/
theorem blocks_straight (h : l.label? = none) : blocks (l :: lines) = blocks lines := by
  rw [blocks, h]

/-- There are as many blocks as labels. -/
theorem length_blocks (lines : List Line) : (blocks lines).length = (labels lines).length := by
  induction lines with
  | nil => rfl
  | cons l lines ih =>
      cases hl : l.label? with
      | none => rw [blocks_straight hl, labels, List.filterMap_cons_none hl, ih, labels]
      | some name =>
          rw [blocks_label hl, labels, List.filterMap_cons_some hl, List.length_cons,
            List.length_cons, ih, labels]

/-- The terminators of lines are those before the first label and those of the blocks. -/
theorem countP_blocks (lines : List Line) :
    (lines.takeWhile (·.label?.isNone)).countP (·.isTerminator) +
      ((blocks lines).map (·.lines.countP (·.isTerminator))).sum = lines.countP
    (·.isTerminator) := by
  induction lines with
  | nil => rfl
  | cons l lines ih =>
      cases hl : l.label? with
      | none =>
          rw [blocks_straight hl, List.takeWhile_cons_of_pos (by simp [hl]), List.countP_cons,
            List.countP_cons, ← ih]
          omega
      | some name =>
          rw [blocks_label hl, List.takeWhile_cons_of_neg (by simp [hl]), List.map_cons,
            List.sum_cons, List.countP_cons, isTerminator_of_label hl, ← ih]
          simp

/-- The lines up to the next label end with a terminator, if all lines do. -/
theorem getLast?_takeWhile (h : (l :: lines).IsChain MayFollow)
    (hlast : ∀ t ∈ (l :: lines).getLast?, t.isTerminator = true) :
    ∀ t ∈ (l :: lines.takeWhile (·.label?.isNone)).getLast?, t.isTerminator = true := by
  induction lines generalizing l with
  | nil => exact hlast
  | cons l' lines ih =>
      obtain ⟨hfollow, hchain⟩ := List.isChain_cons_cons.1 h
      cases hl' : l'.label? with
      | none =>
          rw [List.takeWhile_cons_of_pos (by simp [hl']), List.getLast?_cons_cons]
          rw [List.getLast?_cons_cons] at hlast
          exact ih hchain hlast
      | some name =>
          rw [List.takeWhile_cons_of_neg (by simp [hl'])]
          intro t ht
          cases ht
          exact hfollow (by simp [hl'])

/-- Every block ends with a terminator, if blocks open after the end of others and the last line is
a terminator. -/
theorem blocks_end (h : lines.IsChain MayFollow)
    (hlast : ∀ t ∈ lines.getLast?, t.isTerminator = true) :
    ∀ b ∈ blocks lines, ∃ t ∈ b.lines.getLast?, t.isTerminator = true := by
  induction lines with
  | nil => exact fun _ hb => absurd hb List.not_mem_nil
  | cons l lines ih =>
      have hrest := ih h.of_cons fun t ht => hlast t (by
        rw [List.getLast?_cons, ht]
        rfl)
      cases hl : l.label? with
      | none =>
          rw [blocks_straight hl]
          exact hrest
      | some name =>
          rw [blocks_label hl]
          refine List.forall_mem_cons.2 ⟨?_, hrest⟩
          have hends := getLast?_takeWhile h hlast
          cases hown : lines.takeWhile (·.label?.isNone) with
          | nil =>
              -- A label is no terminator, so that some line comes after it.
              rw [hown] at hends
              have := hends l rfl
              rw [isTerminator_of_label hl] at this
              cases this
          | cons l' own =>
              rw [hown, List.getLast?_cons_cons] at hends
              exact ⟨_, List.getLast?_eq_getLast_of_ne_nil (by simp), hends _
                (List.getLast?_eq_getLast_of_ne_nil (by simp))⟩

/-- Numbers that are all at least one are all one if they add up to how many they are. -/
theorem sum_eq_length_iff {xs : List Nat} (h : ∀ x ∈ xs, 1 ≤ x) :
    xs.sum = xs.length ↔ ∀ x ∈ xs, x = 1 := by
  induction xs with
  | nil => simp
  | cons x xs ih =>
      obtain ⟨hx, hxs⟩ := List.forall_mem_cons.1 h
      have hle := List.length_le_sum_of_one_le xs hxs
      rw [List.forall_mem_cons, ← ih hxs, List.sum_cons, List.length_cons]
      omega

/-! ### Functions -/

/-- Whether a function has no return but one that is the last operation of its body. -/
def ReturnsLast (body : Forest Operation) : Prop :=
  (laidOut body).countP (·.is "llvm.return") =
    if body.roots.getLast?.any (·.is "llvm.return") then 1 else 0

instance : DecidablePred ReturnsLast := fun body => by
  unfold ReturnsLast
  infer_instance

/-- The last operation has a line. -/
theorem mem_laidOut_of_mem_roots (h : op ∈ ops.roots) : op ∈ laidOut ops := by
  induction ops with
  | nil => cases h
  | cons op' children rest _ ih =>
      rw [laidOut]
      rcases List.mem_cons.1 h with rfl | h
      · exact List.mem_cons_self
      · exact List.mem_cons_of_mem _ (List.mem_append_right _ (ih h))

/-- A return is put after the operations of a function unless the last one is a return. -/
theorem functionLines_finish {body : Forest Operation}
    (hwritten : ∀ op ∈ laidOut body, op.IsWritten)
    (h : functionLines body = .ok lines) :
    ∃ inner last made, Laid "entry" 0 body inner last made ∧
      lines = .label "entry" :: inner ++
        (if body.roots.getLast?.any (·.is "llvm.return") then [] else [.ret]) ∧
      lines.getLast? = some .ret := by
  obtain ⟨inner, last, hinner, hlines⟩ := functionLines_ok h
  have hlaid : Laid "entry" 0 body inner last.block last.made := Layout.forest_laid hinner
  obtain ⟨rfl, hroots⟩ | ⟨front, l, op, rfl, hroots, hl⟩ := hlaid.last_line
  · rw [show (Text.trimEnd (renderLines [])).endsWith "ret void" = false by decide +kernel]
      at hlines
    rw [hroots]
    exact ⟨[], _, _, hlaid, hlines, hlines ▸ rfl⟩
  · have hop : op.IsWritten := hwritten op (mem_laidOut_of_mem_roots (List.mem_of_getLast? hroots))
    have hret : l = .ret ↔ op.is "llvm.return" = true := by
      rcases hl with ⟨⟨name, rfl⟩, hop⟩ | hl
      · simp [hop]
      · exact hl.eq_ret_iff
    have hends : l = .ret ∨ ∃ tail, l.EndsApart tail := by
      rcases hl with ⟨⟨name, rfl⟩, -⟩ | hl
      · exact .inr ⟨":", ⟨_, rfl⟩, ⟨':', rfl, by decide +kernel⟩, by decide, by decide⟩
      · exact hl.endsApart hop
    rw [endsWith_renderLines hends] at hlines
    rw [hroots, Option.any_some]
    refine ⟨_, _, _, hlaid, ?_, ?_⟩
    · rw [hlines]
      congr 1
      simp only [decide_eq_true_iff, hret]
    · by_cases hl : l = .ret
      · rw [hlines, if_pos (decide_eq_true hl), hl]
        simp [List.getLast?_cons]
      · rw [hlines, if_neg (by simp [hl])]
        simp [List.getLast?_cons]

/-- Every block of a function ends with a terminator. -/
theorem functionLines_end {body : Forest Operation} (hwritten : ∀ op ∈ laidOut body, op.IsWritten)
    (h : functionLines body = .ok lines) :
    ∀ b ∈ blocks lines, ∃ t ∈ b.lines.getLast?, t.isTerminator = true := by
  obtain ⟨inner, last, made, hlaid, hlines, hlast⟩ := functionLines_finish hwritten h
  refine blocks_end ?_ fun t ht => ?_
  · have hfinish : ∀ ret : Bool, Continues (inner ++ if ret then [] else [.ret]) := fun ret =>
      hlaid.continues.append (.of_straight fun l hl => by
        cases ret
        · rw [List.mem_singleton.1 hl]
          rfl
        · cases hl)
    obtain ⟨hchain, hhead⟩ := hfinish (body.roots.getLast?.any (·.is "llvm.return"))
    rw [hlines, List.cons_append]
    refine hchain.cons fun l hl hopens => ?_
    rw [hhead l hl] at hopens
    cases hopens
  · rw [hlast] at ht
    cases ht
    rfl

/-- A function has as many terminators as blocks and as returns before the end of its body. -/
theorem functionLines_countP {body : Forest Operation}
    (hwritten : ∀ op ∈ laidOut body, op.IsWritten)
    (h : functionLines body = .ok lines) :
    lines.countP (·.isTerminator) +
        (if body.roots.getLast?.any (·.is "llvm.return") then 1 else 0) =
      (labels lines).length + (laidOut body).countP (·.is "llvm.return") := by
  obtain ⟨inner, last, made, hlaid, hlines, -⟩ := functionLines_finish hwritten h
  have hcount := hlaid.countP_isTerminator
  have hlabels : (labels lines).length = 1 + (labels inner).length := by
    rw [hlines]
    split <;> simp [labels, Line.label?]
    all_goals omega
  have hterminators : lines.countP (·.isTerminator) = inner.countP (·.isTerminator) +
      if body.roots.getLast?.any (·.is "llvm.return") then 0 else 1 := by
    rw [hlines]
    split <;> simp [Line.isTerminator]
  rw [hlabels, hterminators, hcount]
  split <;> omega

/-- Every block of a function ends with a terminator. It has no other one in all blocks exactly if
no operation but the last one of the body is a return. -/
theorem functionLines_terminated {body : Forest Operation}
    (hwritten : ∀ op ∈ laidOut body, op.IsWritten) (h : functionLines body = .ok lines) :
    (∀ b ∈ blocks lines, ∃ t ∈ b.lines.getLast?, t.isTerminator = true) ∧
      ((∀ b ∈ blocks lines, b.lines.countP (·.isTerminator) = 1) ↔ ReturnsLast body) := by
  have hends := functionLines_end hwritten h
  refine ⟨hends, ?_⟩
  have hfirst : (lines.takeWhile (·.label?.isNone)).countP (·.isTerminator) = 0 := by
    obtain ⟨inner, last, made, -, rfl, -⟩ := functionLines_finish hwritten h
    rfl
  have hone : ∀ n ∈ (blocks lines).map (·.lines.countP (·.isTerminator)), 1 ≤ n := by
    refine List.forall_mem_map.2 fun b hb => ?_
    obtain ⟨t, ht, hterminator⟩ := hends b hb
    exact List.countP_pos_iff.2 ⟨t, List.mem_of_getLast? ht, hterminator⟩
  -- All blocks have one terminator exactly if the function has as many as it has blocks.
  have hiff := sum_eq_length_iff hone
  rw [List.length_map, length_blocks, List.forall_mem_map] at hiff
  have hsum := countP_blocks lines
  have hcount := functionLines_countP hwritten h
  rw [← hiff, ReturnsLast]
  omega

end Backend

open Backend in
/-- The blocks of the functions in the text of a program that can be written. Each ends with a
terminator, and the blocks of a function have no other ones exactly if no operation of the function
but the last one is a return. -/
theorem Program.backendText_terminated {p : Program} {text : String}
    (hwritten : ∀ id ∈ p.walk, (p.op id).IsWritten) (h : p.backendText = .ok text) :
    ∃ s : Sections, text = s.render ∧
      List.Forall₂ (fun d f => f.IsOf d ∧
        (∀ b ∈ blocks f.lines, ∃ t ∈ b.lines.getLast?, t.isTerminator = true) ∧
        ((∀ b ∈ blocks f.lines, b.lines.countP (·.isTerminator) = 1) ↔ ReturnsLast d.2))
        (functionBodies p.contents) s.defined := by
  obtain ⟨s, hs, hdefined, -⟩ := Backend.backendText_sections (backendText_ok h)
  have hbodies : ∀ d ∈ functionBodies p.contents, ∀ op ∈ laidOut d.2, op.IsWritten :=
    fun d hd op hop => forall_walk_iff.1 hwritten op
      (((laidOut_sublist d.2).trans (preorder_sublist_of_functionBodies hd)).subset hop)
  refine ⟨s, hs, ((List.forall₂_and_left _ _).2 ⟨hbodies, hdefined⟩).imp fun d f hf => ?_⟩
  exact ⟨hf.2, functionLines_terminated hf.1 hf.2.lines⟩

open Backend in
/-- The blocks of a function that calls another one in a loop, and then returns, have one terminator
each. -/
theorem Program.backendText_terminated_loop : ∃ p text,
    Source.parse ("llvm.func(@f)\x7bllvm.loop(0,4,1)\x7bllvm.call(@g)\x7dllvm.return\x7d") = .ok p ∧
    (∀ id ∈ p.walk, (p.op id).IsWritten) ∧ p.backendText = .ok text ∧
    ∃ s : Sections, text = s.render ∧ s.defined.length = 1 ∧
      ∀ f ∈ s.defined, ∀ b ∈ blocks f.lines, b.lines.countP (·.isTerminator) = 1 := by
  have hsource : ∃ p, Source.parse
        ("llvm.func(@f)\x7bllvm.loop(0,4,1)\x7bllvm.call(@g)\x7dllvm.return\x7d") = .ok p ∧
      ((functionBodies p.contents).length = 1 ∧ ∀ d ∈ functionBodies p.contents, ReturnsLast d.2) ∧
      p.backendText.toOption.any (fun _ => decide True) = true :=
    exists_ok_of_any (by decide +kernel)
  obtain ⟨p, hp, ⟨hlength, hreturns⟩, htext⟩ := hsource
  obtain ⟨text, htext, -⟩ := exists_ok_of_any htext
  have hwritten := (loadable_of_parse hp).written
  obtain ⟨s, hs, hdefined⟩ := Program.backendText_terminated hwritten htext
  refine ⟨p, text, hp, hwritten, htext, s, hs, hdefined.length_eq.symm.trans hlength, ?_⟩
  obtain ⟨d, hd⟩ := List.length_eq_one_iff.1 hlength
  rw [hd] at hdefined hreturns
  obtain ⟨f, rest, ⟨-, -, hone⟩, hrest, hf⟩ := List.forall₂_cons_left_iff.1 hdefined
  rw [List.forall₂_nil_left_iff.1 hrest] at hf
  rw [hf]
  exact List.forall_mem_singleton.2 (hone.2 (hreturns d List.mem_cons_self))

open Backend in
/-- A return in a conditional is followed by the branch to the block after the conditional. -/
theorem Program.backendText_returns_early : ∃ p text,
    Source.parse "llvm.func(@f)\x7bllvm.cond(1)\x7bllvm.return\x7d\x7d" = .ok p ∧
    p.backendText = .ok text ∧ ∃ s : Sections, text = s.render ∧
      ∃ d ∈ functionBodies p.contents, ∃ f ∈ s.defined, f.IsOf d ∧
        ⟨"cond1.then", [.ret, .branch "cond1.end"]⟩ ∈ blocks f.lines := by
  have hsource : ∃ p, Source.parse "llvm.func(@f)\x7bllvm.cond(1)\x7bllvm.return\x7d\x7d" = .ok p ∧
      (functionBodies p.contents).map (fun d => (Layout.forest {} d.2).toOption.map (·.1)) =
        [some (Layout.conditionalStart "cond1" (.int 1) ++ [.ret] ++
          Layout.conditionalEnd "cond1")] ∧
      p.backendText.toOption.any (fun _ => decide True) = true :=
    exists_ok_of_any (by decide +kernel)
  obtain ⟨p, hp, hlines, htext⟩ := hsource
  obtain ⟨text, htext, -⟩ := exists_ok_of_any htext
  obtain ⟨s, hs, hdefined, -⟩ := Backend.backendText_sections (backendText_ok htext)
  obtain ⟨d, hd, hbody⟩ := List.map_eq_singleton_iff.1 hlines
  rw [hd] at hdefined
  obtain ⟨f, rest, hf, hrest, hdefined⟩ := List.forall₂_cons_left_iff.1 hdefined
  refine ⟨p, text, hp, htext, s, hs, d, by simp [hd], f, by simp [hdefined], hf, ?_⟩
  -- The block is complete before the end of the function, whatever is put there.
  obtain ⟨inner, last, hinner, hlines⟩ := functionLines_ok hf.lines
  rw [hinner] at hbody
  obtain rfl : inner = _ := Option.some.inj hbody
  rw [hlines]
  exact List.mem_cons_of_mem _ List.mem_cons_self

end TileFlow
