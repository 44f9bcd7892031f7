import Mathlib.Data.List.Chain
import TileFlow.Proofs.Text.Lines
import TileFlow.Stage.Pipeline

/-!
# The text of a pipeline

The text of a pipeline has a part for each stage on the whole program and one for each group of
consecutive stages on devices. Taken apart at the commas it has a piece for each stage: the first
piece of a group opens it and the last one closes it. Read from left to right the pieces tell the
name and the scope of every stage.

One text can be read in two ways. Between the parentheses there is nothing both for a pipeline
without stages and for a single stage on the program whose name is empty.

## Main definitions

* `Stage.signature`: what a text tells of a stage.
* `Pipeline.Part`, `Pipeline.parts`: the parts of the text of a pipeline.
* `Pipeline.Part.pieces`: the texts between the commas.
* `Pipeline.readText`: the stages that a text tells.

## Main results

* `Pipeline.describe_eq`: the text of a pipeline has its parts in order.
* `Pipeline.expand_partsOf`, `Pipeline.isFilled_of_mem_partsOf`, `Pipeline.isChain_partsOf`: the
  parts have the stages in order, each group has one, and no group follows another.
* `Pipeline.readText_describe`: the stages can be read off the text.
* `Pipeline.describe_faithful`: what the parts of a text are, and which pipelines share one.
-/

namespace TileFlow

/-- What the text of a pipeline tells of a stage. -/
def Stage.signature (s : Stage) : String × Scope :=
  (s.name, s.scope)

namespace Pipeline

/-! ### Parts -/

/-- A part of the text of a pipeline: a stage on the program, or consecutive stages on devices. -/
inductive Part where
  | stage (name : String)
  | device (names : List String)
  deriving DecidableEq, Repr

namespace Part

/-- The text of a part. -/
def text : Part → String
  | stage name => name
  | device names => "aie.device(" ++ joinNames names ++ ")"

/-- The stages of a part in order. -/
def expand : Part → List (String × Scope)
  | stage name => [(name, .program)]
  | device names => names.map (·, .device)

/-- Whether a part is a group of stages on devices. -/
def isGroup : Part → Bool
  | stage _ => false
  | device _ => true

/-- A part with at least one stage. -/
def IsFilled (p : Part) : Prop :=
  p.expand ≠ []

end Part

/-- Parts with one more stage on devices in front. -/
def consDevice (name : String) : List Part → List Part
  | .device names :: rest => .device (name :: names) :: rest
  | parts => .device [name] :: parts

/-- The parts that tell some stages. -/
def partsOf : List (String × Scope) → List Part
  | [] => []
  | (name, .device) :: rest => consDevice name (partsOf rest)
  | (name, .program) :: rest => .stage name :: partsOf rest

/-- The parts of the text of a pipeline. -/
def parts (l : Pipeline) : List Part :=
  partsOf (l.stages.map Stage.signature)

/-- A stage on devices joins the group that follows it, or makes a group of its own. -/
theorem consDevice_cases (name : String) (parts : List Part) :
    (∃ names rest, parts = .device names :: rest ∧
        consDevice name parts = .device (name :: names) :: rest) ∨
      (∀ p ∈ parts.head?, p.isGroup = false) ∧
        consDevice name parts = .device [name] :: parts := by
  rcases parts with _ | ⟨p | names, rest⟩
  · exact .inr ⟨by simp, rfl⟩
  · exact .inr ⟨by simp [Part.isGroup], rfl⟩
  · exact .inl ⟨names, rest, rfl, rfl⟩

/-- Stages on devices before a part that is no group are a group of their own. -/
theorem foldr_consDevice (group : List String) (parts : List Part)
    (h : ∀ p ∈ parts.head?, p.isGroup = false) :
    group.foldr consDevice parts = if group = [] then parts else .device group :: parts := by
  induction group with
  | nil => rfl
  | cons name group ih =>
      rw [List.foldr_cons, ih, if_neg (List.cons_ne_nil _ _)]
      by_cases hgroup : group = []
      · rw [if_pos hgroup, hgroup]
        rcases consDevice_cases name parts with ⟨names, rest, rfl, -⟩ | ⟨-, hcons⟩
        · cases h _ rfl
        · exact hcons
      · rw [if_neg hgroup, consDevice]

/-- The texts of parts with an open group of device stages in front. -/
theorem map_text_group (group : List String) (parts : List Part) :
    (if group = [] then parts else .device group :: parts).map Part.text =
      closeGroup group ++ parts.map Part.text := by
  cases group <;> rfl

/-- The parts of a text, with the stages in front whose group is still open. -/
theorem partsFrom_eq (stages : List Stage) (group : List String) :
    partsFrom group stages =
      (group.foldr consDevice (partsOf (stages.map Stage.signature))).map Part.text := by
  induction stages generalizing group with
  | nil =>
      rw [List.map_nil, partsOf, foldr_consDevice group [] (by simp), map_text_group]
      exact (List.append_nil _).symm
  | cons s rest ih =>
      rw [partsFrom, List.map_cons, Stage.signature]
      cases s.scope with
      | device =>
          dsimp only
          rw [partsOf, ih, List.foldr_append]
          rfl
      | program =>
          dsimp only
          rw [partsOf, foldr_consDevice group (.stage _ :: _) (by simp [Part.isGroup]),
            map_text_group, ih]
          rfl

/-- The text of a pipeline has its parts in order. -/
theorem describe_eq (l : Pipeline) :
    l.describe = "builtin.module(" ++ joinNames (l.parts.map Part.text) ++ ")" := by
  rw [describe, partsFrom_eq]
  rfl

/-- The stages of the parts are those of the pipeline in their order, in groups exactly if they work
on devices. -/
theorem expand_partsOf (signatures : List (String × Scope)) :
    (partsOf signatures).flatMap Part.expand = signatures := by
  fun_induction partsOf signatures with
  | case1 => rfl
  | case2 name rest ih =>
      rcases consDevice_cases name (partsOf rest) with ⟨names, tail, heq, hcons⟩ | ⟨-, hcons⟩
      · rw [heq, List.flatMap_cons] at ih
        rw [hcons, List.flatMap_cons, Part.expand, List.map_cons, List.cons_append]
        exact congrArg _ ih
      · rw [hcons, List.flatMap_cons, ih]
        rfl
  | case3 name rest ih =>
      rw [List.flatMap_cons, ih]
      rfl

/-- No part is without a stage. -/
theorem isFilled_of_mem_partsOf {signatures : List (String × Scope)} {p : Part}
    (h : p ∈ partsOf signatures) : p.IsFilled := by
  have hdevice : ∀ name names, (Part.device (name :: names)).IsFilled :=
    fun name names => List.cons_ne_nil _ _
  fun_induction partsOf signatures with
  | case1 => cases h
  | case2 name rest ih =>
      rcases consDevice_cases name (partsOf rest) with ⟨names, tail, heq, hcons⟩ | ⟨-, hcons⟩
      · rw [hcons] at h
        rcases List.mem_cons.1 h with rfl | h
        · exact hdevice _ _
        · exact ih (heq ▸ List.mem_cons_of_mem _ h)
      · rw [hcons] at h
        rcases List.mem_cons.1 h with rfl | h
        · exact hdevice _ _
        · exact ih h
  | case3 name rest ih =>
      rcases List.mem_cons.1 h with rfl | h
      · exact List.cons_ne_nil _ _
      · exact ih h

/-- Of two parts that follow each other one is a stage on the program. -/
theorem isChain_partsOf (signatures : List (String × Scope)) :
    (partsOf signatures).IsChain fun p q => p.isGroup = false ∨ q.isGroup = false := by
  fun_induction partsOf signatures with
  | case1 => exact .nil
  | case2 name rest ih =>
      rcases consDevice_cases name (partsOf rest) with ⟨names, tail, heq, hcons⟩ | ⟨hhead, hcons⟩
      · rw [heq] at ih
        rw [hcons]
        exact List.isChain_cons.2 (List.isChain_cons.1 ih)
      · rw [hcons]
        exact List.isChain_cons.2 ⟨fun q hq => .inr (hhead q hq), ih⟩
  | case3 name rest ih => exact List.isChain_cons.2 ⟨fun q _ => .inl rfl, ih⟩

/-! ### Pieces -/

/-- Names with a closing parenthesis after the last one. -/
def closeLast : List String → List String
  | [] => []
  | [name] => [name ++ ")"]
  | name :: rest => name :: closeLast rest

/-- Pieces with the opening of a group before the first one. -/
def openFirst : List String → List String
  | [] => []
  | piece :: rest => ("aie.device(" ++ piece) :: rest

/-- What is between the commas of the text of a part: a piece for each stage. -/
def Part.pieces : Part → List String
  | .stage name => [name]
  | .device names => openFirst (closeLast names)

section Pieces

variable {name : String} {names more pieces rest : List String} {p : Part}

/-- The last of several names is not the first. -/
theorem closeLast_cons (h : names ≠ []) : closeLast (name :: names) = name :: closeLast names := by
  cases names with
  | nil => exact absurd rfl h
  | cons next others => rfl

/-- Names with a closing mark are still there. -/
theorem closeLast_ne_nil (h : names ≠ []) : closeLast names ≠ [] := by
  cases names with
  | nil => exact absurd rfl h
  | cons name rest => cases rest <;> exact List.cons_ne_nil _ _

/-- The first of several pieces is not among those behind them. -/
theorem openFirst_append (h : pieces ≠ []) :
    openFirst (pieces ++ rest) = openFirst pieces ++ rest := by
  cases pieces with
  | nil => exact absurd rfl h
  | cons piece more => rfl

/-- Pieces with an opening mark are still there. -/
theorem openFirst_ne_nil (h : pieces ≠ []) : openFirst pieces ≠ [] := by
  cases pieces with
  | nil => exact absurd rfl h
  | cons piece more => exact List.cons_ne_nil _ _

/-- One name needs no comma. -/
theorem joinNames_singleton (name : String) : joinNames [name] = name :=
  String.intercalate_singleton

/-- A comma stands between a name and those behind it. -/
theorem joinNames_cons (h : names ≠ []) :
    joinNames (name :: names) = name ++ "," ++ joinNames names :=
  String.intercalate_cons_of_ne_nil h

/-- A comma stands between two lists of names. -/
theorem joinNames_append (h : names ≠ []) (hmore : more ≠ []) :
    joinNames (names ++ more) = joinNames names ++ "," ++ joinNames more :=
  String.intercalate_append_of_ne_nil h hmore

/-- A mark at the last name closes the whole text. -/
theorem joinNames_closeLast (h : names ≠ []) :
    joinNames (closeLast names) = joinNames names ++ ")" := by
  induction names with
  | nil => exact absurd rfl h
  | cons name rest ih =>
      by_cases hrest : rest = []
      · rw [hrest, closeLast, joinNames_singleton, joinNames_singleton]
      · rw [closeLast_cons hrest, joinNames_cons (closeLast_ne_nil hrest), ih hrest,
          joinNames_cons hrest]
        simp only [String.append_assoc]

/-- A mark at the first piece opens the whole text. -/
theorem joinNames_openFirst (h : pieces ≠ []) :
    joinNames (openFirst pieces) = "aie.device(" ++ joinNames pieces := by
  cases pieces with
  | nil => exact absurd rfl h
  | cons piece rest => exact String.intercalate_cons_append

/-- Texts with commas between them are all their pieces with commas between them. -/
theorem joinNames_flatten {texts : List (List String)} (h : ∀ pieces ∈ texts, pieces ≠ []) :
    joinNames texts.flatten = joinNames (texts.map joinNames) := by
  induction texts with
  | nil => rfl
  | cons pieces texts ih =>
      obtain ⟨hpieces, htexts⟩ := List.forall_mem_cons.1 h
      cases texts with
      | nil => rw [List.flatten_singleton, List.map_singleton, joinNames_singleton]
      | cons next others =>
          have hflat : (next :: others).flatten ≠ [] := by
            simp [(List.forall_mem_cons.1 htexts).1]
          have hmap : (next :: others).map joinNames ≠ [] := List.cons_ne_nil _ _
          rw [List.flatten_cons, joinNames_append hpieces hflat, ih htexts, ← joinNames_cons hmap]
          rfl

/-- A filled part names at least one stage. -/
theorem Part.IsFilled.names_ne_nil (h : (Part.device names).IsFilled) : names ≠ [] := by
  rintro rfl
  exact h rfl

/-- A filled part has at least one piece. -/
theorem Part.IsFilled.pieces_ne_nil (h : p.IsFilled) : p.pieces ≠ [] := by
  cases p with
  | stage name => exact List.cons_ne_nil _ _
  | device names => exact openFirst_ne_nil (closeLast_ne_nil h.names_ne_nil)

/-- The pieces of a filled part are its text between commas. -/
theorem Part.IsFilled.joinNames_pieces (h : p.IsFilled) : joinNames p.pieces = p.text := by
  cases p with
  | stage name => exact joinNames_singleton name
  | device names =>
      have hne := h.names_ne_nil
      rw [Part.pieces, joinNames_openFirst (closeLast_ne_nil hne), joinNames_closeLast hne,
        Part.text, String.append_assoc]

/-- What is between the parentheses of the text of a pipeline has a piece for each stage. -/
theorem joinNames_parts (l : Pipeline) :
    joinNames (l.parts.map Part.text) = joinNames (l.parts.flatMap Part.pieces) := by
  have hpieces : ∀ pieces ∈ l.parts.map Part.pieces, pieces ≠ [] := by
    intro pieces h
    obtain ⟨p, hp, rfl⟩ := List.mem_map.1 h
    exact (isFilled_of_mem_partsOf hp).pieces_ne_nil
  have htext : l.parts.map Part.text = l.parts.map (joinNames ∘ Part.pieces) :=
    List.map_congr_left fun p hp => (isFilled_of_mem_partsOf hp).joinNames_pieces.symm
  rw [List.flatMap, joinNames_flatten hpieces, List.map_map, htext]

end Pieces

/-! ### Reading a text -/

/-- The name in a piece: what is between the last opening parenthesis and the closing one, if there
are any. -/
def nameIn (piece : String) : String :=
  let opened := (Text.splitChars '(' piece.toList).getLastD []
  String.ofList ((Text.splitChars ')' opened).headD [])

/-- The stages that pieces tell, where `inside` says whether a group is open. -/
def readPieces : Bool → List String → List (String × Scope)
  | _, [] => []
  | inside, piece :: rest =>
    let device := inside || piece.toList.contains '('
    (nameIn piece, if device then .device else .program) ::
      readPieces (device && !piece.toList.contains ')') rest

/-- The stages that the text of a pipeline tells. -/
def readText (text : String) : List (String × Scope) :=
  let inner := (text.toList.drop "builtin.module(".toList.length).dropLast
  readPieces false (Text.split ',' (String.ofList inner))

/-- A name that does not interfere with the notation of pipelines. -/
def IsPlainName (name : String) : Prop :=
  ∀ c ∈ name.toList, c ≠ ',' ∧ c ≠ '(' ∧ c ≠ ')'

instance (name : String) : Decidable (IsPlainName name) :=
  List.decidableBAll _ name.toList

/-- A pipeline whose stages have plain names. -/
def IsPlain (l : Pipeline) : Prop :=
  ∀ s ∈ l.stages, IsPlainName s.name

instance (l : Pipeline) : Decidable l.IsPlain :=
  List.decidableBAll _ l.stages

/-- A part whose stages have plain names. -/
def Part.IsPlain (p : Part) : Prop :=
  ∀ entry ∈ p.expand, IsPlainName entry.1

section Reading

variable {c : Char} {name piece : String} {names pieces rest : List String} {p : Part}

/-- A plain name has no mark of the notation. -/
theorem IsPlainName.notMem (h : IsPlainName name) (hc : c = ',' ∨ c = '(' ∨ c = ')') :
    c ∉ name.toList := by
  intro hmem
  obtain ⟨hcomma, hopen, hclose⟩ := h c hmem
  rcases hc with rfl | rfl | rfl
  · exact hcomma rfl
  · exact hopen rfl
  · exact hclose rfl

/-- The characters of a piece that opens a group. -/
theorem toList_open (piece : String) :
    ("aie.device(" ++ piece).toList = "aie.device".toList ++ '(' :: piece.toList :=
  String.toList_append

/-- The characters of a piece that closes a group. -/
theorem toList_close (name : String) : (name ++ ")").toList = name.toList ++ [')'] :=
  String.toList_append

/-- The name in a plain piece is the piece. -/
theorem nameIn_plain (h : IsPlainName name) : nameIn name = name := by
  have hopen : '(' ∉ name.toList := h.notMem (by simp)
  have hclose : ')' ∉ name.toList := h.notMem (by simp)
  rw [nameIn, Text.splitChars_of_notMem hopen, List.getLastD_cons, List.getLastD_nil,
    Text.splitChars_of_notMem hclose, List.headD_cons, String.ofList_toList]

/-- The opening of a group is not part of a name. -/
theorem nameIn_open (piece : String) : nameIn ("aie.device(" ++ piece) = nameIn piece := by
  rw [nameIn, toList_open, Text.splitChars_append (by decide), nameIn, List.getLastD_cons]
  cases hsplit : Text.splitChars '(' piece.toList with
  | nil => exact absurd hsplit (Text.splitChars_ne_nil _ _)
  | cons first others => rw [List.getLastD_cons, List.getLastD_cons]

/-- A closing parenthesis is not part of a name. -/
theorem nameIn_close (h : IsPlainName name) : nameIn (name ++ ")") = name := by
  have hopen : '(' ∉ (name ++ ")").toList := by
    rw [toList_close]
    simpa using h.notMem (by simp)
  have hclose : ')' ∉ name.toList := h.notMem (by simp)
  rw [nameIn, Text.splitChars_of_notMem hopen, List.getLastD_cons, List.getLastD_nil, toList_close,
    Text.splitChars_append hclose, List.headD_cons, String.ofList_toList]

/-- Reading an opening mark starts a group. -/
theorem readPieces_openFirst (pieces : List String) :
    readPieces false (openFirst pieces) = readPieces true pieces := by
  cases pieces with
  | nil => rfl
  | cons piece rest => simp [openFirst, readPieces, nameIn_open]

/-- In an open group the stages are on devices, up to the piece that closes it. -/
theorem readPieces_closeLast (h : names ≠ []) (hplain : ∀ name ∈ names, IsPlainName name)
    (rest : List String) : readPieces true (closeLast names ++ rest) =
      names.map (·, Scope.device) ++ readPieces false rest := by
  induction names with
  | nil => exact absurd rfl h
  | cons name names ih =>
      obtain ⟨hname, hnames⟩ := List.forall_mem_cons.1 hplain
      by_cases hlast : names = []
      · simp [hlast, closeLast, readPieces, nameIn_close hname]
      · have hclose : ')' ∉ name.toList := hname.notMem (by simp)
        rw [closeLast_cons hlast, List.cons_append, readPieces, nameIn_plain hname]
        simp [hclose, ih hlast hnames]

/-- Reading the pieces of a part gives its stages, and goes on outside of groups. -/
theorem readPieces_part (hfilled : p.IsFilled) (hplain : p.IsPlain) (rest : List String) :
    readPieces false (p.pieces ++ rest) = p.expand ++ readPieces false rest := by
  cases p with
  | stage name =>
      have hname : IsPlainName name := hplain _ List.mem_cons_self
      have hopen : '(' ∉ name.toList := hname.notMem (by simp)
      simp [Part.pieces, Part.expand, readPieces, nameIn_plain hname, hopen]
  | device names =>
      have hnames : ∀ name ∈ names, IsPlainName name := fun name hmem =>
        hplain _ (List.mem_map_of_mem hmem)
      have hne := hfilled.names_ne_nil
      rw [Part.pieces, ← openFirst_append (closeLast_ne_nil hne), readPieces_openFirst,
        readPieces_closeLast hne hnames, Part.expand]

/-- The pieces of parts tell their stages. -/
theorem readPieces_parts {parts : List Part} (h : ∀ p ∈ parts, p.IsFilled ∧ p.IsPlain) :
    readPieces false (parts.flatMap Part.pieces) = parts.flatMap Part.expand := by
  induction parts with
  | nil => rfl
  | cons p parts ih =>
      obtain ⟨⟨hfilled, hplain⟩, hparts⟩ := List.forall_mem_cons.1 h
      rw [List.flatMap_cons, List.flatMap_cons, readPieces_part hfilled hplain, ih hparts]

/-- Names with commas between them are a text that is put together from them. -/
theorem joinNames_eq_joinWith (names : List String) :
    joinNames names = Text.joinWith ',' names := by
  have hjoin : ∀ parts : List (List Char),
      Text.joinChars ',' parts = [','].intercalate parts := by
    intro parts
    fun_induction Text.joinChars ',' parts with
    | case1 => rfl
    | case2 part => exact List.intercalate_singleton.symm
    | case3 part rest hrest ih =>
        rw [List.intercalate_cons_of_ne_nil fun hnil => hrest hnil, ih, List.append_assoc]
        rfl
  rw [← String.toList_inj, Text.joinWith, String.toList_ofList, hjoin, joinNames,
    String.toList_intercalate]
  rfl

/-- A closing mark brings no comma into plain names. -/
theorem notMem_closeLast (h : ∀ name ∈ names, IsPlainName name) :
    ∀ piece ∈ closeLast names, ',' ∉ piece.toList := by
  induction names with
  | nil => exact fun _ hmem => absurd hmem List.not_mem_nil
  | cons name names ih =>
      obtain ⟨hname, hnames⟩ := List.forall_mem_cons.1 h
      have hcomma : ',' ∉ name.toList := hname.notMem (by simp)
      by_cases hlast : names = []
      · simpa [hlast, closeLast] using hcomma
      · rw [closeLast_cons hlast, List.forall_mem_cons]
        exact ⟨hcomma, ih hnames⟩

/-- No piece has a comma in it. -/
theorem Part.IsPlain.notMem_pieces (h : p.IsPlain) : ∀ piece ∈ p.pieces, ',' ∉ piece.toList := by
  cases p with
  | stage name =>
      rintro piece hpiece
      obtain rfl := List.mem_singleton.1 hpiece
      exact (h _ List.mem_cons_self).notMem (by simp)
  | device names =>
      have hclose := notMem_closeLast fun name hmem => h _ (List.mem_map_of_mem hmem)
      rw [Part.pieces]
      cases hpieces : closeLast names with
      | nil => exact fun _ hmem => absurd hmem List.not_mem_nil
      | cons piece rest =>
          rw [hpieces, List.forall_mem_cons] at hclose
          rw [openFirst, List.forall_mem_cons, toList_open]
          exact ⟨by simpa using hclose.1, hclose.2⟩

end Reading

section Text

variable {l l' : Pipeline}

/-- The parts of a plain pipeline are plain. -/
theorem IsPlain.part (hl : l.IsPlain) {p : Part} (hp : p ∈ l.parts) : p.IsPlain := by
  intro entry hentry
  have hmem : entry ∈ l.stages.map Stage.signature := by
    rw [← expand_partsOf (l.stages.map Stage.signature)]
    exact List.mem_flatMap.2 ⟨p, hp, hentry⟩
  obtain ⟨s, hs, rfl⟩ := List.mem_map.1 hmem
  exact hl s hs

/-- The text within the outer parentheses is read piece by piece. -/
theorem readText_eq (inner : String) :
    readText ("builtin.module(" ++ inner ++ ")") = readPieces false (Text.split ',' inner) := by
  rw [readText]
  simp

/-- The text of a pipeline that has a stage tells its stages. -/
theorem readText_describe (hl : l.IsPlain) (hne : l.stages ≠ []) :
    readText l.describe = l.stages.map Stage.signature := by
  have hstages : ∀ p ∈ l.parts, p.IsFilled ∧ p.IsPlain := fun p hp =>
    ⟨isFilled_of_mem_partsOf hp, hl.part hp⟩
  have hcomma : ∀ piece ∈ l.parts.flatMap Part.pieces, ',' ∉ piece.toList := by
    intro piece hpiece
    obtain ⟨p, hp, hmem⟩ := List.mem_flatMap.1 hpiece
    exact (hl.part hp).notMem_pieces piece hmem
  have hpieces : l.parts.flatMap Part.pieces ≠ [] := by
    intro hnil
    have hread := readPieces_parts hstages
    rw [hnil, parts, expand_partsOf] at hread
    exact hne (List.map_eq_nil_iff.1 hread.symm)
  rw [describe_eq, joinNames_parts, readText_eq,
    joinNames_eq_joinWith, Text.split_joinWith hpieces hcomma,
    readPieces_parts hstages, parts, expand_partsOf]

/-- A pipeline with nothing to tell: without stages, or with a single one on the program whose name
is empty. -/
def IsBlank (l : Pipeline) : Prop :=
  l.stages.map Stage.signature = [] ∨ l.stages.map Stage.signature = [("", .program)]

/-- A pipeline of one stage without a name has the text of an empty one. -/
theorem IsBlank.describe_eq (h : l.IsBlank) : l.describe = "builtin.module()" := by
  rw [Pipeline.describe_eq, parts]
  rcases h with h | h <;> rw [h] <;> rfl

/-- A pipeline without stages shares its text with blank ones only. -/
theorem isBlank_of_describe_eq (hl : l.IsPlain) (h : l.describe = "builtin.module()") :
    l.IsBlank := by
  by_cases hne : l.stages = []
  · exact .inl (by rw [hne]; rfl)
  · refine .inr ?_
    rw [← readText_describe hl hne, h]
    decide

/-- The text of a pipeline lists its stages. Between the parentheses there are parts with commas
between them; the stages of the parts are those of the pipeline in their order, in groups exactly if
they work on devices; no group is without a stage, and no group follows another one. Pipelines share
a text exactly if they have the same names and scopes in the same order, except that nothing is told
of both no stage and a single one on the program without a name. -/
theorem describe_faithful (hl : l.IsPlain) :
    l.describe = "builtin.module(" ++ joinNames (l.parts.map Part.text) ++ ")" ∧
      l.parts.flatMap Part.expand = l.stages.map Stage.signature ∧
      (∀ names, Part.device names ∈ l.parts → names ≠ []) ∧
      (l.parts.IsChain fun p q => p.isGroup = false ∨ q.isGroup = false) ∧
      ∀ l' : Pipeline, l'.IsPlain → (l'.describe = l.describe ↔
        l'.stages.map Stage.signature = l.stages.map Stage.signature ∨ l'.IsBlank ∧ l.IsBlank) := by
  refine ⟨describe_eq l, expand_partsOf _, ?_, isChain_partsOf _, fun l' hl' => ⟨fun h => ?_, ?_⟩⟩
  · exact fun names hmem => (isFilled_of_mem_partsOf hmem).names_ne_nil
  · by_cases hne : l.stages = []
    · have hblank : l.IsBlank := .inl (by rw [hne]; rfl)
      exact .inr ⟨isBlank_of_describe_eq hl' (h.trans hblank.describe_eq), hblank⟩
    · by_cases hne' : l'.stages = []
      · have hblank : l'.IsBlank := .inl (by rw [hne']; rfl)
        exact .inr ⟨hblank, isBlank_of_describe_eq hl (h.symm.trans hblank.describe_eq)⟩
      · refine .inl ?_
        rw [← readText_describe hl' hne', h, readText_describe hl hne]
  · rintro (h | ⟨hblank', hblank⟩)
    · rw [describe_eq, describe_eq, parts, parts, h]
    · rw [hblank'.describe_eq, hblank.describe_eq]

/-- Stages of both scopes, one of them without a name. -/
def mixed : Pipeline where
  stages := [.assignLockIds, .custom "" .device (pure ()), .mergeEqual,
    .custom "mark" .program (pure ()), .lowerMulticast]

/-- Stages on devices in two groups, one of them without a name, around stages on programs. -/
theorem describe_faithful_mixed :
    mixed.IsPlain ∧ canonicalize.IsPlain ∧
      mixed.parts = [.device ["aie-assign-lock-ids", ""], .stage "cse", .stage "mark",
        .device ["aie-lower-multicast"]] ∧
      mixed.describe =
        "builtin.module(aie.device(aie-assign-lock-ids,),cse,mark,aie.device(aie-lower-multicast))"
    ∧
      mixed.parts.flatMap Part.expand = [("aie-assign-lock-ids", .device), ("", .device),
        ("cse", .program), ("mark", .program), ("aie-lower-multicast", .device)] ∧
      canonicalize.describe ≠ mixed.describe := by
  have hmixed : mixed.IsPlain := by decide
  have hcanonicalize : canonicalize.IsPlain := by decide
  have hparts : mixed.parts = [.device ["aie-assign-lock-ids", ""], .stage "cse", .stage "mark",
      .device ["aie-lower-multicast"]] := by decide
  obtain ⟨htext, hexpand, -, -, hshared⟩ := describe_faithful hmixed
  refine ⟨hmixed, hcanonicalize, hparts, ?_, hexpand.trans rfl, ?_⟩
  · rw [htext, hparts]
    decide
  · rw [ne_eq, hshared canonicalize hcanonicalize, IsBlank, IsBlank]
    decide

/-- A single stage on the program without a name. -/
def nameless : Pipeline where
  stages := [.custom "" .program (pure ())]

/-- Nothing is told both of no stage and of a stage without a name. -/
theorem describe_nameless :
    IsPlain ⟨[]⟩ ∧ nameless.IsPlain ∧ describe ⟨[]⟩ = nameless.describe ∧
      ([] : List Stage).map Stage.signature ≠ nameless.stages.map Stage.signature := by
  exact ⟨by decide, by decide, by decide, by decide⟩

end Text

end Pipeline

end TileFlow
