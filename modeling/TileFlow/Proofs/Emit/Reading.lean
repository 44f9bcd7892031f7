import Mathlib.Data.List.TakeWhile
import Mathlib.Data.String.Basic
import TileFlow.Emit.Llvm
import TileFlow.Proofs.Text.Lines

/-!
# Reading backend text

What a line of backend text says is read off its words: which block it opens, to which blocks it
branches, and which blocks its phi lists. A line that is written is read as it was meant, whatever
names are in it, but a name that breaks the line puts further lines into the text, so that texts are
read back where no name does.

## Main definitions

* `labelIn?`, `targetsIn`, `incomingIn`: the control flow that a line is read as.
* `JumpsTo`: whether a line of one block branches to another one.
* `IsBlockName`: the names that are made for blocks.
* `Line.texts`: the texts that are put into a line.

## Main results

* `Line.IsLinked.read`: the block that a line opens and those that it branches to are read back.
* `incomingIn_phi`: the two blocks of a phi are read back.
* `split_renderLines`: the lines of a text are those it was written from.
-/

namespace TileFlow.Backend

open Text

variable {lines : List Line} {l : Line} {a b name : String}

/-! ### Words -/

/-- The words of a line, with an empty one for each further blank. -/
def words (line : String) : List String :=
  split ' ' line

/-- The characters of a name that is written without quotes. -/
def isNameChar (c : Char) : Bool :=
  c.isAlphanum || c ∈ ['-', '$', '.', '_']

/-- The name in a word: what follows the sigil. -/
def nameIn (word : String) : String :=
  String.ofList ((word.toList.drop 1).takeWhile isNameChar)

/-- A blank ends a word. -/
theorem words_append (a b : String) : words (a ++ " " ++ b) = words a ++ words b := by
  have hblank : " ".toList = [' '] := by decide
  rw [words, split, String.toList_append, String.toList_append, hblank, List.append_assoc,
    List.singleton_append, splitChars_append_cons, List.map_append]
  rfl

/-- A text without blanks is one word. -/
theorem words_of_notMem (h : ' ' ∉ a.toList) : words a = [a] := by
  rw [words, split, splitChars_of_notMem h, List.map_singleton, String.ofList_toList]

/-- The first word of a text begins like the text. -/
theorem exists_words_append (h : ' ' ∉ a.toList) (b : String) :
    ∃ word rest, words (a ++ b) = (a ++ word) :: rest := by
  have hchars : ∀ cs : List Char, ' ' ∉ cs →
      splitChars ' ' (cs ++ b.toList) =
        (cs ++ (splitChars ' ' b.toList).headD []) :: (splitChars ' ' b.toList).tail := by
    intro cs hcs
    induction cs with
    | nil =>
        obtain ⟨first, rest, hfirst⟩ := List.exists_cons_of_ne_nil (splitChars_ne_nil ' ' b.toList)
        rw [List.nil_append, List.nil_append, hfirst]
        rfl
    | cons c cs ih =>
        rw [List.mem_cons, not_or] at hcs
        rw [List.cons_append, splitChars_cons, if_neg (Ne.symm hcs.1), ih hcs.2]
        rfl
  refine ⟨String.ofList ((splitChars ' ' b.toList).headD []),
    (splitChars ' ' b.toList).tail.map String.ofList, ?_⟩
  rw [words, split, String.toList_append, hchars _ h, List.map_cons, String.ofList_append,
    String.ofList_toList]

/-! ### Control flow -/

/-- The block that a line opens: a word with a colon after it, alone on its line. -/
def labelIn? (line : String) : Option String :=
  match words line with
  | [word] =>
    if word.toList.getLast? = some ':' then some (String.ofList word.toList.dropLast) else none
  | _ => none

/-- The blocks that the words of a line branch to. -/
def targetsOfWords : List String → List String
  | ["", "", "br", "label", target] => [nameIn target]
  | ["", "", "br", "i1", _, "label", target, "label", otherwise] =>
    [nameIn target, nameIn otherwise]
  | _ => []

/-- The blocks that a line branches to. -/
def targetsIn (line : String) : List String :=
  targetsOfWords (words line)

/-- The blocks of the pairs of a phi: each pair has a value and a block between brackets. -/
def blocksOfPairs : List String → List String
  | "[" :: _ :: block :: _ :: rest => nameIn block :: blocksOfPairs rest
  | _ => []

/-- The blocks that the words of a phi list. -/
def incomingOfWords : List String → List String
  | "" :: "" :: _ :: "=" :: "phi" :: "i32" :: pairs => blocksOfPairs pairs
  | _ => []

/-- The blocks that a phi lists. -/
def incomingIn (line : String) : List String :=
  incomingOfWords (words line)

/-- The blocks that lines open, in order. -/
def labelsIn (lines : List String) : List String :=
  lines.filterMap labelIn?

/-- Labels of two lists of lines of text. -/
@[simp] theorem labelsIn_append (lines later : List String) :
    labelsIn (lines ++ later) = labelsIn lines ++ labelsIn later :=
  List.filterMap_append

/-- The branches of lines before which a block is open: the block of each, and where it leads. -/
def jumpsIn (block : String) : List String → List (String × String)
  | [] => []
  | line :: rest => (targetsIn line).map (block, ·) ++ jumpsIn ((labelIn? line).getD block) rest

/-- Whether a line of one block branches to another one. Before the first label no block is open. -/
def JumpsTo (lines : List String) (source target : String) : Prop :=
  (source, target) ∈ jumpsIn "" lines

instance (lines : List String) (source target : String) : Decidable (JumpsTo lines source target) :=
  inferInstanceAs (Decidable (_ ∈ _))

/-! ### Names of blocks -/

/-- The names that are made for blocks: letters, digits and dots. -/
def IsBlockName (name : String) : Prop :=
  ∀ c ∈ name.toList, c.isAlphanum = true ∨ c = '.'

instance (name : String) : Decidable (IsBlockName name) :=
  decidable_of_iff (name.toList.all (fun c => c.isAlphanum || c == '.') = true)
    (by simp [IsBlockName])

/-- Names of blocks in a row are one name. -/
theorem IsBlockName.append (ha : IsBlockName a) (hb : IsBlockName b) : IsBlockName (a ++ b) := by
  intro c hc
  rw [String.toList_append] at hc
  exact (List.mem_append.1 hc).elim (ha c) (hb c)

/-- A numeral can be part of the name of a block. -/
theorem isBlockName_numeral (k : Nat) : IsBlockName (toString k) := fun c hc => by
  rw [Char.isAlphanum, isDigit_of_mem_numeral hc, Bool.or_true]
  exact .inl rfl

/-- What is neither a letter, a digit nor a dot does not occur in the name of a block. -/
theorem IsBlockName.notMem (h : IsBlockName name) {c : Char}
    (hc : (c.isAlphanum || c == '.') = false) : c ∉ name.toList := fun hmem => by
  rw [Bool.or_eq_false_iff, beq_eq_false_iff_ne] at hc
  rcases h c hmem with halnum | rfl
  · rw [hc.1] at halnum
    cases halnum
  · exact hc.2 rfl

/-- The name of a block has no line break. -/
theorem IsBlockName.isUnbroken (h : IsBlockName name) : IsUnbroken name :=
  h.notMem (by decide)

/-- The name of a block is read off the word that it is written as. -/
theorem IsBlockName.nameIn_eq (h : IsBlockName name) :
    nameIn ("%" ++ name) = name ∧ nameIn ("%" ++ name ++ ",") = name := by
  have hlits : "%".toList = ['%'] ∧ ",".toList = [','] := by decide
  have hname : ∀ c ∈ name.toList, isNameChar c = true := fun c hc => by
    rcases h c hc with halnum | rfl
    · rw [isNameChar, halnum, Bool.true_or]
    · decide
  constructor
  · rw [nameIn, String.toList_append, hlits.1, List.singleton_append, List.drop_one, List.tail_cons,
      List.takeWhile_eq_self_iff.2 hname, String.ofList_toList]
  · rw [nameIn, String.toList_append, String.toList_append, hlits.1, hlits.2, List.append_assoc,
      List.singleton_append, List.drop_one, List.tail_cons, List.takeWhile_append_of_pos hname,
      List.takeWhile_cons_of_neg (by decide), List.append_nil, String.ofList_toList]

/-! ### Lines that are read back -/

/-- The block that a line opens. -/
def Line.label? : Line → Option String
  | .label name => some name
  | _ => none

/-- The blocks that a line branches to. -/
def Line.targets : Line → List String
  | .branch target => [target]
  | .branchIf _ target otherwise => [target, otherwise]
  | _ => []

/-- The names in a line that are made for blocks and their conditions. -/
def Line.blockNames : Line → List String
  | .label name => [name]
  | .branch target => [target]
  | .branchIf condition target otherwise => [condition, target, otherwise]
  | .phi _ _ firstBlock _ nextBlock => [firstBlock, nextBlock]
  | _ => []

/-- Lines whose blocks have names that are made for blocks. -/
def Line.IsLinked (l : Line) : Prop :=
  ∀ name ∈ l.blockNames, IsBlockName name

/-- A line that is set in begins with two empty words. -/
theorem words_indent (b : String) : words ("  " ++ b) = "" :: "" :: words b := by
  have hblanks : "  " ++ b = "" ++ " " ++ ("" ++ " " ++ b) := by
    rw [← String.append_assoc, ← String.append_assoc]
    rfl
  have hempty : words "" = [""] := by decide
  rw [hblanks, words_append, words_append, hempty, List.singleton_append, List.singleton_append]

/-- How instructions begin that are no branches. -/
def plainStarts : List String :=
  ["  %", "  call void @", "  store ", "  ret void"]

/-- How branches begin. -/
def branchStarts : List String :=
  ["  br label %", "  br i1 %"]

/-- How a line begins that is not a label. -/
theorem Line.exists_render_eq (h : l.label? = none) : ∃ start rest, l.render = start ++ rest ∧
    (start ∈ plainStarts ∨ l.targets ≠ [] ∧ start ∈ branchStarts) := by
  cases l with
  | label => cases h
  | call result =>
      cases result <;> simp only [render, String.append_assoc]
      · exact ⟨"  call void @", _, rfl, .inl (by decide)⟩
      · exact ⟨"  %", _, rfl, .inl (by decide)⟩
  | store =>
      simp only [render, String.append_assoc]
      exact ⟨"  store ", _, rfl, .inl (by decide)⟩
  | ret => exact ⟨"  ret void", "", rfl, .inl (by decide)⟩
  | branch => exact ⟨"  br label %", _, rfl, .inr ⟨List.cons_ne_nil _ _, by decide⟩⟩
  | branchIf =>
      simp only [render, String.append_assoc]
      exact ⟨"  br i1 %", _, rfl, .inr ⟨List.cons_ne_nil _ _, by decide⟩⟩
  | _ =>
      simp only [render, String.append_assoc]
      exact ⟨"  %", _, rfl, .inl (by decide)⟩

/-- An instruction begins with blanks. -/
theorem Line.exists_render_indent (h : l.label? = none) : ∃ rest, l.render = "  " ++ rest := by
  have hblanks : ∀ start ∈ plainStarts ++ branchStarts,
      start = "  " ++ String.ofList (start.toList.drop 2) := by decide
  obtain ⟨start, rest, hrender, hstart⟩ := Line.exists_render_eq h
  have hmem : start ∈ plainStarts ++ branchStarts :=
    List.mem_append.2 (hstart.imp_right And.right)
  exact ⟨_, by rw [hrender, hblanks start hmem, String.append_assoc]⟩

/-- The first word of an instruction that is no branch. -/
theorem Line.exists_words (hlabel : l.label? = none) (htargets : l.targets = []) :
    ∃ word rest, words l.render = "" :: "" :: word :: rest ∧ word ≠ "br" := by
  obtain ⟨start, rest, hrender, hstart | hstart⟩ := Line.exists_render_eq hlabel
  case inr => exact absurd htargets hstart.1
  rw [hrender]
  have hwhole : ∀ {first : String} (more : String), words first = [first] → first ≠ "br" →
      ∃ word rest, words ("  " ++ (first ++ " " ++ more)) = "" :: "" :: word :: rest ∧
        word ≠ "br" :=
    fun more hfirst hne => ⟨_, words more, by rw [words_indent, words_append, hfirst]; rfl, hne⟩
  simp only [plainStarts, List.mem_cons, List.not_mem_nil, or_false] at hstart
  rcases hstart with rfl | rfl | rfl | rfl
  · obtain ⟨word, more, hwords⟩ := exists_words_append (a := "%") (by decide) rest
    refine ⟨"%" ++ word, more, ?_, fun h => ?_⟩
    · rw [← hwords, ← words_indent, ← String.append_assoc]
      rfl
    · have := congrArg (·.toList.head?) h
      simp at this
  · have := hwhole ("void @" ++ rest) (by decide : words "call" = ["call"]) (by decide)
    simp only [← String.append_assoc] at this
    exact this
  · have := hwhole rest (by decide : words "store" = ["store"]) (by decide)
    simp only [← String.append_assoc] at this
    exact this
  · have := hwhole ("void" ++ rest) (by decide : words "ret" = ["ret"]) (by decide)
    simp only [← String.append_assoc] at this
    exact this

/-- A line whose first word is not `br` branches nowhere. -/
theorem targetsOfWords_of_ne {word : String} (h : word ≠ "br") (rest : List String) :
    targetsOfWords ("" :: "" :: word :: rest) = [] := by
  unfold targetsOfWords
  split <;> simp_all

/-- A line that neither opens a block nor leads to one is read as such a line. -/
theorem Line.read_straight (hlabel : l.label? = none) (htargets : l.targets = []) :
    labelIn? l.render = none ∧ targetsIn l.render = [] := by
  obtain ⟨word, rest, hwords, hne⟩ := Line.exists_words hlabel htargets
  rw [labelIn?, targetsIn, hwords, targetsOfWords_of_ne hne]
  exact ⟨rfl, rfl⟩

/-- The name of a block is one word, with or without a comma after it. -/
theorem IsBlockName.words_eq (h : IsBlockName name) :
    words ("%" ++ name) = ["%" ++ name] ∧ words ("%" ++ name ++ ",") = ["%" ++ name ++ ","] := by
  have hname : ' ' ∉ ("%" ++ name).toList := by
    rw [String.toList_append, List.mem_append, not_or]
    exact ⟨by decide, h.notMem (by decide)⟩
  refine ⟨words_of_notMem hname, words_of_notMem ?_⟩
  rw [String.toList_append, List.mem_append, not_or]
  exact ⟨hname, by decide⟩

/-- A label is one word. -/
theorem IsBlockName.words_label (h : IsBlockName name) : words (name ++ ":") = [name ++ ":"] :=
  words_of_notMem (by
    rw [String.toList_append, List.mem_append, not_or]
    exact ⟨h.notMem (by decide), by decide⟩)

/-- The words of a branch. -/
theorem words_branch {target : String} (h : IsBlockName target) :
    words (Line.branch target).render = ["", "", "br", "label", "%" ++ target] := by
  have hstart : "  br label %" = "  " ++ ("br" ++ " " ++ ("label" ++ " " ++ "%")) := by decide
  have hrender : (Line.branch target).render =
      "  " ++ ("br" ++ " " ++ ("label" ++ " " ++ ("%" ++ target))) := by
    change "  br label %" ++ target = _
    rw [hstart]
    simp only [String.append_assoc]
  have hfirst : words "br" = ["br"] ∧ words "label" = ["label"] := by decide
  simp only [hrender, words_indent, words_append, hfirst, h.words_eq]
  rfl

/-- The words of a branch that depends on a condition. -/
theorem words_branchIf {condition target otherwise : String} (hcondition : IsBlockName condition)
    (htarget : IsBlockName target) (hotherwise : IsBlockName otherwise) :
    words (Line.branchIf condition target otherwise).render =
      ["", "", "br", "i1", "%" ++ condition ++ ",", "label", "%" ++ target ++ ",", "label",
        "%" ++ otherwise] := by
  have hstart : "  br i1 %" = "  " ++ ("br" ++ " " ++ ("i1" ++ " " ++ "%")) := by decide
  have hnext : ", label %" = "," ++ " " ++ ("label" ++ " " ++ "%") := by decide
  have hrender : (Line.branchIf condition target otherwise).render =
      "  " ++ ("br" ++ " " ++ ("i1" ++ " " ++ ("%" ++ condition ++ "," ++ " " ++ ("label" ++ " " ++
        ("%" ++ target ++ "," ++ " " ++ ("label" ++ " " ++ ("%" ++ otherwise))))))) := by
    change "  br i1 %" ++ condition ++ ", label %" ++ target ++ ", label %" ++ otherwise = _
    rw [hstart, hnext]
    simp only [String.append_assoc]
  have hfirst : words "br" = ["br"] ∧ words "label" = ["label"] ∧ words "i1" = ["i1"] := by decide
  simp only [hrender, words_indent, words_append, hfirst, hcondition.words_eq, htarget.words_eq,
    hotherwise.words_eq]
  rfl

/-- The block that a line opens and those that it branches to are read back. -/
theorem Line.IsLinked.read (h : l.IsLinked) :
    labelIn? l.render = l.label? ∧ targetsIn l.render = l.targets := by
  cases l with
  | label name =>
      have hname : IsBlockName name := h name (by simp [blockNames])
      have hcolon : ":".toList = [':'] := by decide
      have hlast : (name ++ ":").toList.getLast? = some ':' := by
        rw [String.toList_append, hcolon, List.getLast?_concat]
      rw [render, show s!"{name}:" = name ++ ":" from rfl, labelIn?, targetsIn, hname.words_label]
      dsimp only
      rw [if_pos hlast, String.toList_append, hcolon, List.dropLast_concat, String.ofList_toList]
      exact ⟨rfl, by simp [targetsOfWords, targets]⟩
  | branch target =>
      have htarget : IsBlockName target := h target (by simp [blockNames])
      rw [labelIn?, targetsIn, words_branch htarget]
      exact ⟨rfl, by rw [targetsOfWords, htarget.nameIn_eq.1]; rfl⟩
  | branchIf condition target otherwise =>
      have hnames : IsBlockName condition ∧ IsBlockName target ∧ IsBlockName otherwise := by
        simpa [IsLinked, blockNames] using h
      obtain ⟨hcondition, htarget, hotherwise⟩ := hnames
      rw [labelIn?, targetsIn, words_branchIf hcondition htarget hotherwise]
      exact ⟨rfl, by rw [targetsOfWords, htarget.nameIn_eq.2, hotherwise.nameIn_eq.1]; rfl⟩
  | _ => exact Line.read_straight rfl rfl

/-- The two blocks that a phi lists are read back, if its result and its first value are in one
piece. -/
theorem incomingIn_phi {result first firstBlock next nextBlock : String}
    (hresult : ' ' ∉ result.toList) (hfirst : ' ' ∉ first.toList) (hnext : ' ' ∉ next.toList)
    (hfirstBlock : IsBlockName firstBlock) (hnextBlock : IsBlockName nextBlock) :
    incomingIn (Line.phi result first firstBlock next nextBlock).render =
    [firstBlock, nextBlock] := by
  have hlits : "  %" = "  " ++ "%" ∧ " = phi i32 [ " = " " ++
      ("=" ++ " " ++ ("phi" ++ " " ++ ("i32" ++
      " " ++ ("[" ++ " " ++ "")))) ∧ ", %" = "," ++ " " ++ "%" ∧ " ], [ %" = " " ++
        ("]," ++ " " ++ ("[" ++
        " " ++ "%")) ∧ " ]" = " " ++ "]" := by decide
  have hrender : (Line.phi result first firstBlock next nextBlock).render =
      "  " ++ ("%" ++ result ++ " " ++
        ("=" ++ " " ++ ("phi" ++ " " ++ ("i32" ++ " " ++ ("[" ++ " " ++
        (first ++ "," ++ " " ++ ("%" ++ firstBlock ++ " " ++ ("]," ++ " " ++ ("[" ++ " " ++
          ("%" ++ next ++ "," ++ " " ++ ("%" ++ nextBlock ++ " " ++ "]"))))))))))) := by
    change "  %" ++ result ++ " = phi i32 [ " ++ first ++ ", %" ++ firstBlock ++
      " ], [ %" ++ next ++
      ", %" ++ nextBlock ++ " ]" = _
    rw [hlits.1, hlits.2.1, hlits.2.2.1, hlits.2.2.2.1, hlits.2.2.2.2]
    simp only [String.append_assoc, String.empty_append]
  have hone : ∀ {start text later : String}, ' ' ∉ start.toList → ' ' ∉ text.toList →
      ' ' ∉ later.toList → words (start ++ text ++ later) = [start ++ text ++ later] := by
    intro start text later hstart htext hlater
    refine words_of_notMem ?_
    simp only [String.toList_append, List.mem_append, not_or]
    exact ⟨⟨hstart, htext⟩, hlater⟩
  have hresult : words ("%" ++ result) = ["%" ++ result] := by
    have := hone (by decide : ' ' ∉ "%".toList) hresult (by decide : ' ' ∉ "".toList)
    rwa [String.append_empty] at this
  have hfirst : words (first ++ ",") = [first ++ ","] := by
    have := hone (by decide : ' ' ∉ "".toList) hfirst (by decide : ' ' ∉ ",".toList)
    rwa [String.empty_append] at this
  have hnext : words ("%" ++ next ++ ",") = ["%" ++ next ++ ","] :=
    hone (by decide) hnext (by decide)
  have hfixed : words "=" = ["="] ∧ words "phi" = ["phi"] ∧ words "i32" = ["i32"] ∧
      words "[" = ["["] ∧ words "]," = ["],"] ∧ words "]" = ["]"] := by decide
  rw [incomingIn, hrender]
  simp only [words_indent, words_append, hresult, hfirst, hnext, hfixed, hfirstBlock.words_eq,
    hnextBlock.words_eq, List.cons_append, List.nil_append]
  rw [incomingOfWords, blocksOfPairs, blocksOfPairs, blocksOfPairs, hfirstBlock.nameIn_eq.1,
    hnextBlock.nameIn_eq.1]
  simp

/-! ### Lines of a text -/

/-- The texts that are put into a line. -/
def Line.texts : Line → List String
  | .label name => [name]
  | .call result callee xs => result.toList ++ callee :: xs.map (·.name)
  | .address result base index => [result, base, index.name]
  | .load result pointer => [result, pointer]
  | .store value pointer => [value.name, pointer]
  | .constant result _ => [result]
  | .binary result opcode left right => [result, opcode, left, right]
  | .branch target => [target]
  | .branchIf condition target otherwise => [condition, target, otherwise]
  | .phi result first firstBlock next nextBlock => [result, first, firstBlock, next, nextBlock]
  | .lessThan result left right => [result, left, right]
  | .notZero result value => [result, value]
  | .ret => []

/-- The name that an operand is written with. -/
def nameOf? (a : Attribute) : Option String :=
  match a with
  | .symbol s => some s
  | .value s => some s
  | _ => none

/-- The names in the text of an operation: its result, and the symbols and values that it uses. -/
def namesOf (op : Operation) : List String :=
  op.result.toList ++ op.operands.filterMap nameOf?

/-- An operand with its type has no line break if its name has none. -/
theorem Operand.isUnbroken_typed {x : Operand} (h : IsUnbroken x.name) : IsUnbroken x.typed := by
  have htype : IsUnbroken x.type := by
    have htypes : IsUnbroken "i32" ∧ IsUnbroken "ptr" := by decide
    cases x <;> first | exact htypes.1 | exact htypes.2
  exact (htype.append (by decide)).append h

/-- A character that is in none of some texts, and neither a comma nor a blank, is not between
them. -/
theorem notMem_commaSeparated {c : Char} (hc : c ∉ ", ".toList) {texts : List String}
    (h : ∀ text ∈ texts, c ∉ text.toList) : c ∉ (commaSeparated texts).toList := by
  induction texts with
  | nil => exact List.not_mem_nil
  | cons text texts ih =>
      have htext := h text List.mem_cons_self
      cases texts with
      | nil => exact htext
      | cons next texts =>
          have hrest := ih fun t ht => h t (List.mem_cons_of_mem _ ht)
          change c ∉ (text ++ ", " ++ commaSeparated (next :: texts)).toList
          simp only [String.toList_append, List.mem_append, not_or]
          exact ⟨⟨htext, hc⟩, hrest⟩

/-- A line is written on one line if no text in it breaks it. -/
theorem Line.isUnbroken_render (h : ∀ text ∈ l.texts, IsUnbroken text) : IsUnbroken l.render := by
  have hassign : ∀ {result : String}, IsUnbroken result → IsUnbroken ("  %" ++ result) :=
    fun hresult => (by decide : IsUnbroken "  %").append hresult
  cases l with
  | label name =>
      have hname : IsUnbroken name := by simpa [texts] using h
      exact hname.append (by decide)
  | call result callee xs =>
      have hcallee : IsUnbroken callee := h callee (by simp [texts])
      have hxs : IsUnbroken (arguments xs) :=
        notMem_commaSeparated (by decide) (List.forall_mem_map.2 fun x hx =>
          Operand.isUnbroken_typed (h x.name (by
            simp only [texts, List.mem_append, List.mem_cons, List.mem_map]
            exact .inr (.inr ⟨x, hx, rfl⟩))))
      cases result with
      | none => exact ((((by decide : IsUnbroken "  call void @").append hcallee).append
          (by decide)).append hxs).append (by decide)
      | some result =>
          have hresult : IsUnbroken result := h result (by simp [texts])
          exact (((((hassign hresult).append (by decide)).append hcallee).append (by decide)).append
            hxs).append (by decide)
  | address result base index =>
      obtain ⟨hresult, hbase, hindex⟩ : IsUnbroken result ∧ IsUnbroken base ∧
        IsUnbroken index.name := by
        simpa [texts] using h
      exact ((((hassign hresult).append (by decide)).append hbase).append (by decide)).append
        (Operand.isUnbroken_typed hindex)
  | load result pointer =>
      obtain ⟨hresult, hpointer⟩ : IsUnbroken result ∧ IsUnbroken pointer := by simpa
        [texts] using h
      exact (((hassign hresult).append (by decide)).append hpointer).append (by decide)
  | store value pointer =>
      obtain ⟨hvalue, hpointer⟩ : IsUnbroken value.name ∧ IsUnbroken pointer := by simpa
        [texts] using h
      exact ((((by decide : IsUnbroken "  store ").append (Operand.isUnbroken_typed hvalue)).append
        (by decide)).append hpointer).append (by decide)
  | constant result n =>
      have hresult : IsUnbroken result := by simpa [texts] using h
      exact ((hassign hresult).append (by decide)).append (isUnbroken_int n)
  | binary result opcode left right =>
      obtain ⟨hresult, hopcode, hleft, hright⟩ : IsUnbroken result ∧ IsUnbroken opcode ∧
          IsUnbroken left ∧ IsUnbroken right := by simpa [texts] using h
      exact ((((((hassign hresult).append (by decide)).append hopcode).append (by decide)).append
        hleft).append (by decide)).append hright
  | branch target =>
      have htarget : IsUnbroken target := by simpa [texts] using h
      exact (by decide : IsUnbroken "  br label %").append htarget
  | branchIf condition target otherwise =>
      obtain ⟨hcondition, htarget, hotherwise⟩ : IsUnbroken condition ∧ IsUnbroken target ∧
          IsUnbroken otherwise := by simpa [texts] using h
      exact (((((by decide : IsUnbroken "  br i1 %").append hcondition).append (by decide)).append
        htarget).append (by decide)).append hotherwise
  | phi result first firstBlock next nextBlock =>
      obtain ⟨hresult, hfirst, hfirstBlock, hnext, hnextBlock⟩ : IsUnbroken result ∧
        IsUnbroken first ∧
          IsUnbroken firstBlock ∧ IsUnbroken next ∧ IsUnbroken nextBlock := by simpa [texts] using h
      exact (((((((((hassign hresult).append (by decide)).append hfirst).append (by decide)).append
        hfirstBlock).append (by decide)).append hnext).append (by decide)).append hnextBlock).append
          (by decide)
  | lessThan result left right =>
      obtain ⟨hresult, hleft, hright⟩ : IsUnbroken result ∧ IsUnbroken left ∧ IsUnbroken right := by
        simpa [texts] using h
      exact ((((hassign hresult).append (by decide)).append hleft).append (by decide)).append hright
  | notZero result value =>
      obtain ⟨hresult, hvalue⟩ : IsUnbroken result ∧ IsUnbroken value := by simpa [texts] using h
      exact (((hassign hresult).append (by decide)).append hvalue).append (by decide)
  | ret => exact (by decide : IsUnbroken "  ret void")

/-- A line break ends what is before it. -/
theorem split_append_break (a b : String) : split '\n' (a ++ "\n" ++ b) = split '\n' a ++
    split '\n' b := by
  have hbreak : "\n".toList = ['\n'] := by decide
  rw [split, String.toList_append, String.toList_append, hbreak, List.append_assoc,
    List.singleton_append, splitChars_append_cons, List.map_append]
  rfl

/-- An unbroken text is one line. -/
theorem split_of_isUnbroken (h : IsUnbroken a) : split '\n' a = [a] := by
  rw [split, splitChars_of_notMem h, List.map_singleton, String.ofList_toList]

/-- The lines of a text that begins with lines, of which some may be broken. -/
theorem split_renderLines (lines : List Line) (rest : String) :
    split '\n' (renderLines lines ++ rest) =
      lines.flatMap (fun l => split '\n' l.render) ++ split '\n' rest := by
  induction lines with
  | nil =>
      rw [renderLines, List.map_nil, String.join_nil, String.empty_append, List.flatMap_nil,
        List.nil_append]
  | cons l lines ih =>
      have hfirst : renderLines (l :: lines) = l.render ++ "\n" ++ renderLines lines := by
        rw [renderLines, List.map_cons, String.join_cons]
        rfl
      rw [hfirst, String.append_assoc, split_append_break, ih, List.flatMap_cons, List.append_assoc]

/-- Lines that are not broken are the lines of their text. -/
theorem flatMap_split_render (h : ∀ l ∈ lines, IsUnbroken l.render) :
    lines.flatMap (fun l => split '\n' l.render) = lines.map (·.render) := by
  induction lines with
  | nil => rfl
  | cons l lines ih =>
      rw [List.flatMap_cons, split_of_isUnbroken (h l List.mem_cons_self),
        ih fun k hk => h k (List.mem_cons_of_mem _ hk)]
      rfl

end TileFlow.Backend
