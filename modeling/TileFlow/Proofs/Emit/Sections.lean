import Mathlib.Data.List.DropRight
import Mathlib.Data.String.Basic
import TileFlow.Emit.Llvm
import TileFlow.Proofs.Core.Symbols
import TileFlow.Proofs.Emit.Reading

/-!
# Sections of the backend text

The backend text is a header, a line for each global, a line for each declaration and a block for
each function. Globals and functions stand in it in program order and are never left out, be their
symbols different or not. Declarations have different symbols: those of the functions without a body
and of the called functions that are not defined. The lines that introduce a symbol are read back
from the text, where no name breaks a line and the symbols of globals are one word each.

## Main definitions

* `Backend.Sections`: what the text introduces, and how it is written.
* `Backend.introducedIn`: the symbols that the lines of a text introduce, each as what it is.
* `Backend.Sections.IsPlain`: sections whose names can be read back.

## Main results

* `Backend.backendText_sections`: the sections of the text of a program.
* `Backend.Sections.introducedIn_render`: the text of plain sections introduces their symbols and no others.
-/

namespace TileFlow

namespace Backend

open Text

/-- A global as the text introduces it, with the address in the comment above it if there is one. -/
structure GlobalItem where
  symbol : String
  size : Int
  address : Option Int
  deriving DecidableEq, Repr

/-- The lines of a global. -/
def GlobalItem.render (g : GlobalItem) : String :=
  (match g.address with
    | some address => s!"; @{g.symbol} placed at {Text.hexAddress address}\n"
    | none => "") ++
  s!"@{g.symbol} = global [{g.size} x i8] zeroinitializer, align 16\n"

/-- A declared function, with the types of its result and of its arguments. -/
structure DeclaredItem where
  symbol : String
  result : String
  arguments : List String
  deriving DecidableEq, Repr

/-- A declared function whose result and arguments have types of the backend. -/
structure DeclaredItem.IsTyped (d : DeclaredItem) : Prop where
  result : d.result ∈ ["void", "i32"]
  arguments : ∀ type ∈ d.arguments, type ∈ ["i32", "ptr"]

/-- The signature of a declared function. -/
def DeclaredItem.signature (d : DeclaredItem) : String :=
  s!"{d.result} @{d.symbol}({commaSeparated d.arguments})"

/-- The line of a declared function. -/
def DeclaredItem.render (d : DeclaredItem) : String :=
  s!"declare {d.signature}\n"

/-- A function with a body. -/
structure DefinedItem where
  symbol : String
  lines : List Line
  deriving DecidableEq, Repr

/-- The block of a function. -/
def DefinedItem.render (f : DefinedItem) : String :=
  s!"define void @{f.symbol}() \x7b\n" ++ renderLines f.lines ++ "\x7d\n\n"

/-- The lines of a function under its symbol, from its body. -/
structure DefinedItem.IsOf (f : DefinedItem) (d : String × Forest Operation) : Prop where
  symbol : f.symbol = d.1
  lines : functionLines d.2 = .ok f.lines

/-- What the backend text introduces. -/
structure Sections where
  globals : List GlobalItem
  declared : List DeclaredItem
  defined : List DefinedItem
  deriving DecidableEq, Repr

namespace Sections

/-- The text of what is introduced. -/
def render (s : Sections) : String :=
  "; ModuleID = 'aie'\nsource_filename = \"aie\"\n\n" ++
    paragraph (s.globals.map (·.render)) ++ paragraph (s.declared.map (·.render)) ++
    String.join (s.defined.map (·.render))

/-- The symbols of the globals. -/
def globalSymbols (s : Sections) : List String :=
  s.globals.map (·.symbol)

/-- The symbols of the functions that are declared. -/
def declaredSymbols (s : Sections) : List String :=
  s.declared.map (·.symbol)

/-- The symbols of the functions that have a body. -/
def definedSymbols (s : Sections) : List String :=
  s.defined.map (·.symbol)

/-- The symbols that are introduced. -/
def symbols (s : Sections) : List String :=
  s.globalSymbols ++ s.declaredSymbols ++ s.definedSymbols

end Sections

/-! ### Reading the text -/

/-- The symbol of a function in a line: what is between the first sigil and the bracket before the
arguments, which is the last one that opens. -/
def calledIn (line : String) : String :=
  String.ofList (((line.toList.dropWhile (· ≠ '@')).drop 1).rdropWhile (· ≠ '(')).dropLast

/-- What a line introduces, and the symbol of it: a global has the symbol as its first word, a
function has it before its arguments. -/
def introducedIn? (line : String) : Option (UnitKind × String) :=
  if (words line).head? = some "declare" then some (.declaration, calledIn line)
  else if (words line).head? = some "define" then some (.definition, calledIn line)
  else if ((words line).drop 1).take 2 = ["=", "global"] ∧ line.toList.head? = some '@' then
    some (.global, String.ofList (line.toList.tail.takeWhile (· ≠ ' ')))
  else none

/-- What the lines of a text introduce, in order. -/
def introducedIn (text : String) : List (UnitKind × String) :=
  (split '\n' text).filterMap introducedIn?

/-- The symbols that the lines of a text introduce as one kind. -/
def introducedAs (kind : UnitKind) (text : String) : List String :=
  (introducedIn text).filterMap fun e => if e.1 = kind then some e.2 else none

/-- A line break separates what is introduced. -/
theorem introducedIn_append_break (a b : String) :
    introducedIn (a ++ "\n" ++ b) = introducedIn a ++ introducedIn b := by
  rw [introducedIn, split_append_break, List.filterMap_append]
  rfl

/-- One line introduces at most one symbol. -/
theorem introducedIn_of_isUnbroken {line : String} (h : IsUnbroken line) :
    introducedIn line = (introducedIn? line).toList := by
  rw [introducedIn, split_of_isUnbroken h]
  cases hline : introducedIn? line <;> simp [hline]

/-- Texts that end with a line break. -/
def EndsLine (text : String) : Prop :=
  ∃ a, text = a ++ "\n"

/-- The empty text introduces nothing. -/
theorem introducedIn_empty : introducedIn "" = [] := by
  decide

/-- After a text that ends its last line, symbols are read off separately. -/
theorem introducedIn_append {a : String} (h : EndsLine a) (b : String) :
    introducedIn (a ++ b) = introducedIn a ++ introducedIn b := by
  obtain ⟨a, rfl⟩ := h
  have hlast : introducedIn (a ++ "\n") = introducedIn a := by
    have := introducedIn_append_break a ""
    rwa [String.append_empty, introducedIn_empty, List.append_nil] at this
  rw [introducedIn_append_break, hlast]

/-- What is put together from items introduces what these introduce. -/
theorem introducedIn_join {items : List String} (h : ∀ item ∈ items, EndsLine item) (b : String) :
    introducedIn (String.join items ++ b) = items.flatMap introducedIn ++ introducedIn b := by
  induction items with
  | nil => rw [String.join_nil, String.empty_append, List.flatMap_nil, List.nil_append]
  | cons item items ih =>
      rw [String.join_cons, String.append_assoc, introducedIn_append (h item List.mem_cons_self),
        ih fun other hother => h other (List.mem_cons_of_mem _ hother), List.flatMap_cons,
        List.append_assoc]

/-- A paragraph introduces what its items do, in order. -/
theorem introducedIn_paragraph {items : List String} (h : ∀ item ∈ items, EndsLine item)
    (b : String) :
    introducedIn (paragraph items ++ b) = items.flatMap introducedIn ++ introducedIn b := by
  rw [paragraph]
  split
  · rename_i hempty
    rw [List.isEmpty_iff.1 hempty, String.empty_append]
    rfl
  · have hbreak : introducedIn ("\n" ++ b) = introducedIn b := by
      have := introducedIn_append_break "" b
      rwa [String.empty_append] at this
    rw [String.append_assoc, introducedIn_join h, hbreak]

/-- A line by itself introduces what it is read as. -/
theorem introducedIn_line {line : String} (h : IsUnbroken line) (b : String) :
    introducedIn (line ++ "\n" ++ b) = (introducedIn? line).toList ++ introducedIn b := by
  rw [introducedIn_append_break, introducedIn_of_isUnbroken h]

/-- What comes after the first sigil of a line, up to a character that the symbol does not have. -/
theorem takeWhile_symbol {stop : Char} {symbol : String} (hsymbol : stop ∉ symbol.toList)
    (rest : List Char) : (symbol.toList ++ stop :: rest).takeWhile (· ≠ stop) = symbol.toList := by
  have hkeep : ∀ c ∈ symbol.toList, decide (c ≠ stop) = true := fun c hc =>
    decide_eq_true fun heq => hsymbol (heq ▸ hc)
  rw [List.takeWhile_append_of_pos hkeep, List.takeWhile_cons_of_neg (by simp), List.append_nil]

/-- The line of a global is read as one, if its symbol is one word. -/
theorem introducedIn?_global {symbol : String} (hsymbol : ' ' ∉ symbol.toList) (rest : String) :
    introducedIn? ("@" ++ symbol ++ " = global [" ++ rest) = some (.global, symbol) := by
  have hsigil : "@".toList = ['@'] := by decide
  have hmiddle : " = global [".toList = ' ' :: "= global [".toList := by decide
  have hword : words ("@" ++ symbol) = ["@" ++ symbol] := words_of_notMem (by
    rw [String.toList_append, List.mem_append, not_or]
    exact ⟨by decide, hsymbol⟩)
  have hline : "@" ++ symbol ++ " = global [" ++ rest =
      "@" ++ symbol ++ " " ++ ("=" ++ " " ++ ("global" ++ " " ++ ("[" ++ rest))) := by
    rw [show " = global [" = " " ++ ("=" ++ " " ++ ("global" ++ " " ++ "[")) by decide]
    simp only [String.append_assoc]
  have hfixed : words "=" = ["="] ∧ words "global" = ["global"] := by decide
  have hwords : words ("@" ++ symbol ++ " = global [" ++ rest) =
      ("@" ++ symbol) :: "=" :: "global" :: words ("[" ++ rest) := by
    rw [hline, words_append, words_append, words_append, hword, hfixed.1, hfixed.2]
    rfl
  have hne : ∀ text : String, text.toList.head? ≠ some '@' → some ("@" ++ symbol) ≠ some text :=
    fun text htext heq => htext (by rw [← Option.some.inj heq, String.toList_append, hsigil]; rfl)
  have hchars : ("@" ++ symbol ++ " = global [" ++ rest).toList =
      '@' :: (symbol.toList ++ ' ' :: ("= global [".toList ++ rest.toList)) := by
    simp only [String.toList_append, hsigil, hmiddle, List.append_assoc, List.cons_append,
      List.nil_append]
  rw [introducedIn?, hwords, List.head?_cons, if_neg (hne "declare" (by decide)),
    if_neg (hne "define" (by decide)), if_pos ⟨rfl, by rw [hchars]; rfl⟩, hchars, List.tail_cons,
    takeWhile_symbol hsymbol, String.ofList_toList]

/-- The comment above a global introduces nothing. -/
theorem introducedIn?_comment (text : String) : introducedIn? ("; @" ++ text) = none := by
  have hline : "; @" ++ text = ";" ++ " " ++ ("@" ++ text) := by
    rw [show "; @" = ";" ++ " " ++ "@" by decide]
    simp only [String.append_assoc]
  have hfirst : words ";" = [";"] := by decide
  have hhead : ("; @" ++ text).toList.head? ≠ some '@' := by
    rw [String.toList_append, show "; @".toList = [';', ' ', '@'] by decide]
    exact (by decide : some ';' ≠ some '@')
  rw [introducedIn?, if_neg, if_neg, if_neg fun h => hhead h.2] <;>
    rw [hline, words_append, hfirst, List.singleton_append, List.head?_cons] <;> decide

/-- The symbol of a function is read back. -/
theorem calledIn_append {start rest : String} (hstart : '@' ∉ start.toList)
    (hrest : '(' ∉ rest.toList)
    (symbol : String) : calledIn (start ++ "@" ++ symbol ++ "(" ++ rest) = symbol := by
  have hkeep : ∀ c ∈ start.toList, decide (c ≠ '@') = true := fun c hc =>
    decide_eq_true fun heq => hstart (heq ▸ hc)
  have hdrop : ∀ c ∈ rest.toList.reverse, decide (c ≠ '(') = true := fun c hc =>
    decide_eq_true fun heq => hrest (heq ▸ List.mem_reverse.1 hc)
  have hmarks : "@".toList = ['@'] ∧ "(".toList = ['('] := by decide
  have hchars : (start ++ "@" ++ symbol ++ "(" ++ rest).toList =
      start.toList ++ '@' :: (symbol.toList ++ '(' :: rest.toList) := by
    simp only [String.toList_append, hmarks, List.append_assoc, List.cons_append, List.nil_append]
  have hreverse : (symbol.toList ++ '(' :: rest.toList).reverse =
      rest.toList.reverse ++ '(' :: symbol.toList.reverse := by simp
  rw [calledIn, hchars, List.dropWhile_append_of_pos hkeep, List.dropWhile_cons_of_neg (by simp),
    List.drop_one, List.tail_cons, List.rdropWhile, hreverse, List.dropWhile_append_of_pos hdrop,
    List.dropWhile_cons_of_neg (by simp), List.reverse_cons, List.reverse_reverse,
      List.dropLast_concat,
    String.ofList_toList]

/-- A global introduces its symbol, if this is one word. -/
theorem GlobalItem.introducedIn_render (g : GlobalItem) (hsymbol : IsUnbroken g.symbol)
    (hword : ' ' ∉ g.symbol.toList) :
    EndsLine g.render ∧ introducedIn g.render = [(.global, g.symbol)] := by
  have hline : IsUnbroken ("@" ++ g.symbol ++ " = global [" ++
      (toString g.size ++ " x i8] zeroinitializer, align 16")) :=
    (((by decide : IsUnbroken "@").append hsymbol).append (by decide)).append
      ((isUnbroken_int g.size).append (by decide))
  have hrender : ("@" ++ g.symbol ++ " = global [" ++ toString g.size ++
      " x i8] zeroinitializer, align 16\n") = "@" ++ g.symbol ++ " = global [" ++
        (toString g.size ++ " x i8] zeroinitializer, align 16") ++ "\n" ++ "" := by
    rw [show " x i8] zeroinitializer, align 16\n" = " x i8] zeroinitializer, align 16" ++
      "\n" by decide]
    simp only [String.append_assoc, String.append_empty]
  have hread : introducedIn ("@" ++ g.symbol ++ " = global [" ++ toString g.size ++
      " x i8] zeroinitializer, align 16\n") = [(.global, g.symbol)] := by
    rw [hrender, introducedIn_line hline, introducedIn?_global hword, introducedIn_empty]
    rfl
  have hends : EndsLine ("@" ++ g.symbol ++ " = global [" ++ toString g.size ++
      " x i8] zeroinitializer, align 16\n") := ⟨_, by rw [hrender, String.append_empty]⟩
  obtain ⟨symbol, size, address⟩ := g
  cases address with
  | none =>
      change EndsLine ("" ++ _) ∧ introducedIn ("" ++ _) = _
      rw [String.empty_append]
      exact ⟨hends, hread⟩
  | some address =>
      have hcomment : IsUnbroken ("; @" ++ (symbol ++ " placed at " ++ hexAddress address)) :=
        (by decide : IsUnbroken "; @").append
          ((hsymbol.append (by decide)).append (isUnbroken_hexAddress address))
      have hwhole : (GlobalItem.mk symbol size (some address)).render =
          "; @" ++ (symbol ++ " placed at " ++ hexAddress address) ++ "\n" ++
            ("@" ++ symbol ++ " = global [" ++ toString
              size ++ " x i8] zeroinitializer, align 16\n") := by
        simp only [render, String.append_assoc]
        rfl
      rw [hwhole, introducedIn_line hcomment, introducedIn?_comment, hread]
      obtain ⟨a, ha⟩ := hends
      exact ⟨⟨_, by rw [ha, ← String.append_assoc]⟩, rfl⟩

/-- A declaration introduces its symbol. -/
theorem DeclaredItem.introducedIn_render (d : DeclaredItem) (hd : d.IsTyped)
    (hsymbol : IsUnbroken d.symbol) :
    EndsLine d.render ∧ introducedIn d.render = [(.declaration, d.symbol)] := by
  have hresult : IsUnbroken d.result ∧ '@' ∉ d.result.toList :=
    (by decide : ∀ type ∈ ["void", "i32"], IsUnbroken type ∧ '@' ∉ type.toList) _ hd.result
  have htypes : IsUnbroken (commaSeparated d.arguments) :=
    notMem_commaSeparated (by decide) fun type htype =>
      (by decide : ∀ type ∈ ["i32", "ptr"], IsUnbroken type) type (hd.arguments type htype)
  have hbracket : '(' ∉ (commaSeparated d.arguments ++ ")").toList := by
    rw [String.toList_append, List.mem_append, not_or]
    refine ⟨notMem_commaSeparated (by decide) fun type htype => ?_, by decide⟩
    exact (by decide : ∀ type ∈ ["i32", "ptr"], '(' ∉ type.toList) type (hd.arguments type htype)
  have hrender : d.render = "declare " ++ d.result ++ " " ++ "@" ++ d.symbol ++ "(" ++
      (commaSeparated d.arguments ++ ")") ++ "\n" ++ "" := by
    change "declare " ++
      (d.result ++ " @" ++ d.symbol ++ "(" ++ commaSeparated d.arguments ++ ")") ++ "\n" = _
    rw [show " @" = " " ++ "@" by decide]
    simp only [String.append_assoc, String.append_empty]
  have hunbroken : IsUnbroken ("declare " ++ d.result ++ " " ++ "@" ++ d.symbol ++ "(" ++
      (commaSeparated d.arguments ++ ")")) :=
    ((((((by decide : IsUnbroken "declare ").append hresult.1).append (by decide)).append
      (by decide)).append hsymbol).append (by decide)).append (htypes.append (by decide))
  have hstart : '@' ∉ ("declare " ++ d.result ++ " ").toList := by
    simp only [String.toList_append, List.mem_append, not_or]
    exact ⟨⟨by decide, hresult.2⟩, by decide⟩
  have hhead : (words ("declare " ++ d.result ++ " " ++ "@" ++ d.symbol ++ "(" ++
      (commaSeparated d.arguments ++ ")"))).head? = some "declare" := by
    have hline : "declare " ++ d.result ++ " " ++ "@" ++ d.symbol ++ "(" ++
        (commaSeparated d.arguments ++ ")") = "declare" ++ " " ++
          (d.result ++ " " ++ "@" ++ d.symbol ++ "(" ++
          (commaSeparated d.arguments ++ ")")) := by
      rw [show "declare " = "declare" ++ " " by decide]
      simp only [String.append_assoc]
    rw [hline, words_append, (by decide : words "declare" = ["declare"])]
    rfl
  refine ⟨⟨_, by rw [hrender, String.append_empty]⟩, ?_⟩
  rw [hrender, introducedIn_line hunbroken, introducedIn_empty, introducedIn?, if_pos hhead,
    calledIn_append hstart hbracket]
  rfl

/-- The lines of functions introduce nothing. -/
theorem Line.IsLinked.introducedIn?_render {l : Line}
    (h : l.IsLinked) : introducedIn? l.render = none := by
  have hread : ∀ word rest, words l.render = word :: rest → word ≠ "declare" → word ≠ "define" →
      l.render.toList.head? ≠ some '@' → introducedIn? l.render = none := by
    intro word rest hwords hdeclare hdefine hhead
    rw [introducedIn?, hwords, List.head?_cons, if_neg (by simpa using hdeclare),
      if_neg (by simpa using hdefine), if_neg fun h => hhead h.2]
  by_cases hlabel : l.label? = none
  · obtain ⟨rest, hrest⟩ := Line.exists_render_indent hlabel
    have hblank : ("  " ++ rest).toList.head? = some ' ' := by
      rw [String.toList_append, show "  ".toList = [' ', ' '] by decide]
      rfl
    refine hread "" _ (by rw [hrest, words_indent]) (by decide) (by decide) ?_
    rw [hrest, hblank]
    decide
  · cases l with
    | label name =>
        have hname : IsBlockName name := h name (by simp [blockNames])
        have hcolon : ":".toList = [':'] := by decide
        have hlast : (name ++ ":").toList.getLast? = some ':' := by
          rw [String.toList_append, hcolon, List.getLast?_concat]
        have hne : ∀ text : String, text.toList.getLast? ≠ some ':' → name ++ ":" ≠ text :=
          fun text htext heq => htext (heq ▸ hlast)
        refine hread (name ++ ":") [] hname.words_label (hne _ (by decide)) (hne _ (by decide)) ?_
        intro hhead
        have hmem : '@' ∈ (name ++ ":").toList := List.mem_of_mem_head? hhead
        rw [String.toList_append, List.mem_append] at hmem
        exact hmem.elim (hname.notMem (by decide)) (by decide)
    | _ => exact absurd rfl hlabel

/-- A function introduces its symbol, and nothing else if its lines are not broken. -/
theorem DefinedItem.introducedIn_render (f : DefinedItem) (hsymbol : IsUnbroken f.symbol)
    (hlinked : ∀ l ∈ f.lines, l.IsLinked) (hlines : ∀ l ∈ f.lines, IsUnbroken l.render) :
    EndsLine f.render ∧ introducedIn f.render = [(.definition, f.symbol)] := by
  have hrender : f.render = "define void " ++ "@" ++ f.symbol ++ "(" ++ ") \x7b" ++ "\n" ++
      (renderLines f.lines ++ "\x7d\n\n") := by
    change "define void @" ++ f.symbol ++ "() \x7b\n" ++ renderLines f.lines ++ "\x7d\n\n" = _
    rw [show "define void @" = "define void " ++ "@" by decide,
      show "() \x7b\n" = "(" ++ ") \x7b" ++ "\n" by decide]
    simp only [String.append_assoc]
  have hunbroken : IsUnbroken ("define void " ++ "@" ++ f.symbol ++ "(" ++ ") \x7b") :=
    ((((by decide : IsUnbroken "define void ").append (by decide)).append hsymbol).append
      (by decide)).append (by decide)
  have hhead : (words ("define void " ++ "@" ++ f.symbol ++ "(" ++ ") \x7b")).head? =
      some "define" := by
    have hline : "define void " ++ "@" ++ f.symbol ++ "(" ++ ") \x7b" =
        "define" ++ " " ++ ("void " ++ "@" ++ f.symbol ++ "(" ++ ") \x7b") := by
      rw [show "define void " = "define" ++ " " ++ "void " by decide]
      simp only [String.append_assoc]
    rw [hline, words_append, (by decide : words "define" = ["define"])]
    rfl
  have hbody : introducedIn (renderLines f.lines ++ "\x7d\n\n") = [] := by
    rw [introducedIn, split_renderLines, flatMap_split_render hlines, List.filterMap_append,
      List.append_eq_nil_iff]
    refine ⟨List.filterMap_eq_nil_iff.2 (List.forall_mem_map.2 fun l hl => ?_), by decide⟩
    exact (hlinked l hl).introducedIn?_render
  refine ⟨⟨"define void @" ++ f.symbol ++ "() \x7b\n" ++ (renderLines f.lines ++ "\x7d\n"), ?_⟩, ?_⟩
  · change "define void @" ++ f.symbol ++ "() \x7b\n" ++ renderLines f.lines ++ "\x7d\n\n" = _
    rw [show "\x7d\n\n" = "\x7d\n" ++ "\n" by decide]
    simp only [String.append_assoc]
  · rw [hrender, introducedIn_line hunbroken, hbody, introducedIn?, if_neg, if_pos hhead,
      calledIn_append (by decide) (by decide)]
    · rfl
    · rw [hhead]
      decide

/-- Sections whose text shows what they introduce. -/
structure Sections.IsPlain (s : Sections) : Prop where
  globals : ∀ g ∈ s.globals, IsUnbroken g.symbol ∧ ' ' ∉ g.symbol.toList
  declared : ∀ d ∈ s.declared, d.IsTyped ∧ IsUnbroken d.symbol
  defined : ∀ f ∈ s.defined, IsUnbroken f.symbol ∧ ∀ l ∈ f.lines, l.IsLinked ∧ IsUnbroken l.render

/-- What the text of plain sections introduces. -/
theorem Sections.introducedIn_render {s : Sections} (h : s.IsPlain) :
    introducedIn s.render = s.globals.map (fun g => (.global, g.symbol)) ++
      s.declared.map (fun d => (.declaration, d.symbol)) ++
      s.defined.map (fun f => (.definition, f.symbol)) := by
  have hglobals := fun g hg => GlobalItem.introducedIn_render g (h.globals g hg).1
    (h.globals g hg).2
  have hdeclared := fun d hd =>
    DeclaredItem.introducedIn_render d (h.declared d hd).1 (h.declared d hd).2
  have hdefined := fun f hf => DefinedItem.introducedIn_render f (h.defined f hf).1
    (fun l hl => ((h.defined f hf).2 l hl).1) fun l hl => ((h.defined f hf).2 l hl).2
  obtain ⟨header, hheader, hrender⟩ : ∃ header, (EndsLine header ∧ introducedIn header = []) ∧
      s.render = header ++ (paragraph (s.globals.map (·.render)) ++
        (paragraph (s.declared.map (·.render)) ++ String.join (s.defined.map (·.render)))) :=
    ⟨"; ModuleID = 'aie'\nsource_filename = \"aie\"\n\n",
      ⟨⟨"; ModuleID = 'aie'\nsource_filename = \"aie\"\n", by decide +kernel⟩, by decide +kernel⟩,
      String.append_assoc.trans String.append_assoc⟩
  have hitems : ∀ {α : Type} {items : List α} {render : α → String} {e : α → UnitKind × String},
      (∀ a ∈ items, EndsLine (render a) ∧ introducedIn (render a) = [e a]) →
      (∀ item ∈ items.map render, EndsLine item) ∧
        (items.map render).flatMap introducedIn = items.map e := by
    intro α items render e hitems
    refine ⟨List.forall_mem_map.2 fun a ha => (hitems a ha).1, ?_⟩
    rw [List.flatMap_map, ← List.flatMap_pure_eq_map]
    exact List.flatMap_congr fun a ha => (hitems a ha).2
  obtain ⟨hends, hread⟩ := hitems hglobals
  obtain ⟨hends', hread'⟩ := hitems hdeclared
  obtain ⟨hends'', hread''⟩ := hitems hdefined
  have hlast : introducedIn (String.join (s.defined.map (·.render))) =
      s.defined.map fun f => (.definition, f.symbol) := by
    have := introducedIn_join hends'' ""
    rwa [String.append_empty, hread'', introducedIn_empty, List.append_nil] at this
  rw [hrender, introducedIn_append hheader.1, hheader.2, introducedIn_paragraph hends,
    introducedIn_paragraph hends', hread, hread', hlast, List.nil_append, List.append_assoc]

/-! ### Sorting what is at the top -/

/-- The symbols at the top of a forest of a kind. -/
def rootSymbols (ops : Forest Operation) (kind : UnitKind) : List String :=
  ops.roots.filterMap (Operation.symbolAs? kind)

/-- What is required is there when no error is raised. -/
theorem Layout.require_ok {α : Type} {op : Operation} {x : Option α} {a : α} :
    Layout.require op x = .ok a ↔ x = some a := by
  cases x <;> simp [Layout.require, Layout.unsupported]

/-- Globals, functions and declarations are sorted by their kind. -/
theorem unitsOf_ok {ops : Forest Operation} {units : Units} (h : unitsOf ops = .ok units) :
    units.globals.map (fun op => (op.operandSymbol? 0).getD "") = rootSymbols ops .global ∧
      units.defined.map (·.1) = rootSymbols ops .definition ∧
      units.declared = rootSymbols ops .declaration := by
  induction ops generalizing units with
  | nil =>
      cases h
      exact ⟨rfl, rfl, rfl⟩
  | cons op body rest _ ih =>
      rw [unitsOf] at h
      obtain ⟨symbol, hsymbol, h⟩ := Except.bind_ok_iff.1 h
      have hop := Layout.require_ok.1 hsymbol
      have hroots : ∀ kind, rootSymbols (.cons op body rest) kind =
          (op.symbolAs? kind).toList ++ rootSymbols rest kind := fun kind => by
        rw [rootSymbols, Forest.roots, List.filterMap_cons, rootSymbols]
        cases op.symbolAs? kind <;> rfl
      -- Wherever the operation is put, the rest is sorted as the induction tells.
      have hput : ∀ place : Units → Units,
          (do let units ← unitsOf rest; pure (place units) : Except EmitError Units) = .ok units →
          ∃ later, unitsOf rest = .ok later ∧ units = place later := fun place hplace => by
        obtain ⟨later, hlater, hplace⟩ := Except.bind_ok_iff.1 hplace
        exact ⟨later, hlater, (Except.ok.inj hplace).symm⟩
      dsimp only at h
      simp only [hroots]
      split at h
      · rename_i hname
        have hlowered : backendName? op.name = some "llvm.global" := by
          rw [show op.name = _ from beq_iff_eq.1 hname]
          decide +kernel
        have hkind := Operation.unitKind?_of_global hlowered
        obtain ⟨later, hlater, rfl⟩ := hput _ h
        obtain ⟨hglobals, hdefined, hdeclared⟩ := ih hlater
        simp [Operation.symbolAs?_of_unitKind? hkind, hop, hglobals, hdefined, hdeclared]
      · split at h
        · rename_i hname
          have hlowered : backendName? op.name = some "llvm.func" := by
            rw [show op.name = _ from beq_iff_eq.1 hname]
            decide +kernel
          have hkind := Operation.unitKind?_of_function hlowered
          split at h
          · rename_i hregion
            rw [hregion, if_pos rfl] at hkind
            obtain ⟨later, hlater, rfl⟩ := hput _ h
            obtain ⟨hglobals, hdefined, hdeclared⟩ := ih hlater
            simp [Operation.symbolAs?_of_unitKind? hkind, hop, hglobals, hdefined, hdeclared]
          · rename_i hregion
            rw [if_neg hregion] at hkind
            obtain ⟨later, hlater, rfl⟩ := hput _ h
            obtain ⟨hglobals, hdefined, hdeclared⟩ := ih hlater
            simp [Operation.symbolAs?_of_unitKind? hkind, hop, hglobals, hdefined, hdeclared]
        · cases h

/-- The functions with a body at the top of a forest: the symbol and the body of each. -/
def functionBodies : Forest Operation → List (String × Forest Operation)
  | .nil => []
  | .cons op body rest =>
    if op.is "llvm.func" && op.hasRegion then
      ((op.operandSymbol? 0).getD "", body) :: functionBodies rest
    else functionBodies rest

/-- The operations of a function are some of those of a program. -/
theorem preorder_sublist_of_functionBodies {d : String × Forest Operation}
    (h : d ∈ functionBodies ops) : d.2.preorder.Sublist ops.preorder := by
  induction ops with
  | nil => cases h
  | cons f body rest _ ih =>
      rw [Forest.preorder]
      have hrest : d ∈ functionBodies rest →
          d.2.preorder.Sublist (f :: (body.preorder ++ rest.preorder)) :=
        fun h => (ih h).trans ((List.sublist_append_right _ _).cons _)
      rw [functionBodies] at h
      split at h
      · rcases List.mem_cons.1 h with rfl | h
        · exact (List.sublist_append_left _ _).cons _
        · exact hrest h
      · exact hrest h

/-- The functions that are sorted. -/
theorem unitsOf_defined {ops : Forest Operation} {units : Units} (h : unitsOf ops = .ok units) :
    units.defined = functionBodies ops := by
  induction ops generalizing units with
  | nil =>
      cases h
      rfl
  | cons op body rest _ ih =>
      rw [unitsOf] at h
      obtain ⟨symbol, hsymbol, h⟩ := Except.bind_ok_iff.1 h
      have hop := Layout.require_ok.1 hsymbol
      have hput : ∀ place : Units → Units,
          (do let units ← unitsOf rest; pure (place units) : Except EmitError Units) = .ok units →
          ∃ later, later.defined = functionBodies rest ∧ units = place later :=
            fun place hplace => by
        obtain ⟨later, hlater, hplace⟩ := Except.bind_ok_iff.1 hplace
        exact ⟨later, ih hlater, (Except.ok.inj hplace).symm⟩
      dsimp only at h
      rw [functionBodies, hop, Option.getD_some]
      split at h
      · rename_i hname
        obtain ⟨later, hlater, rfl⟩ := hput _ h
        rw [Operation.not_is_of_is hname (by decide)]
        exact hlater
      · split at h
        · rename_i hname
          rw [hname]
          split at h
          · rename_i hregion
            obtain ⟨later, hlater, rfl⟩ := hput _ h
            rw [hregion, ← hlater]
            rfl
          · rename_i hregion
            obtain ⟨later, hlater, rfl⟩ := hput _ h
            rw [Bool.eq_false_iff.2 hregion]
            exact hlater
        · cases h

/-- What is at the top of a program whose parts are sorted has a symbol. -/
theorem exists_symbol_of_unitsOf {ops : Forest Operation} {units : Units}
    (h : unitsOf ops = .ok units) :
    ∀ op ∈ ops.roots, ∃ symbol, op.operandSymbol? 0 = some symbol := by
  induction ops generalizing units with
  | nil => exact fun _ hop => absurd hop List.not_mem_nil
  | cons op body rest _ ih =>
      rw [unitsOf] at h
      obtain ⟨symbol, hsymbol, h⟩ := Except.bind_ok_iff.1 h
      dsimp only at h
      have hrest : ∃ later, unitsOf rest = .ok later := by
        cases hrest : unitsOf rest with
        | ok later => exact ⟨later, rfl⟩
        | error e =>
            rw [hrest] at h
            split at h
            · cases h
            · split at h
              · split at h <;> cases h
              · cases h
      obtain ⟨later, hlater⟩ := hrest
      intro other hother
      rcases List.mem_cons.1 hother with rfl | hother
      · exact ⟨symbol, Layout.require_ok.1 hsymbol⟩
      · exact ih hlater other hother

/-! ### Declarations -/

/-- A list of signatures gains at most the new one. -/
theorem mem_addSignature {symbol signature : String} {s : Signatures} {e : String × String}
    (he : e ∈ addSignature symbol signature s) : e = (symbol, signature) ∨ e ∈ s := by
  induction s with
  | nil => exact .inl (List.mem_singleton.1 he)
  | cons f rest ih =>
      rw [addSignature] at he
      split at he
      · exact List.mem_cons.1 he
      · split at he
        · exact .inr he
        · rcases List.mem_cons.1 he with rfl | he
          · exact .inr List.mem_cons_self
          · exact (ih he).imp id (List.mem_cons_of_mem _)

/-- Adding a signature to sorted ones keeps them sorted, so that no symbol comes twice. -/
theorem sorted_addSignature {symbol signature : String} {s : Signatures}
    (hs : (s.map (·.1)).Pairwise (· < ·)) :
    ((addSignature symbol signature s).map (·.1)).Pairwise (· < ·) := by
  induction s with
  | nil => simp [addSignature]
  | cons f rest ih =>
      obtain ⟨hfirst, hrest⟩ := List.pairwise_cons.1 hs
      rw [addSignature]
      split
      · rename_i hlt
        refine List.pairwise_cons.2 ⟨fun k hk => ?_, hs⟩
        rcases List.mem_cons.1 hk with rfl | hk
        · exact hlt
        · exact String.lt_trans hlt (hfirst k hk)
      · rename_i hnot
        split
        · exact hs
        · rename_i hne
          refine List.pairwise_cons.2 ⟨fun k hk => ?_, ih hrest⟩
          obtain ⟨e, he, rfl⟩ := List.mem_map.1 hk
          rcases mem_addSignature he with rfl | he
          · exact lt_of_le_of_ne (not_lt.1 hnot) (Ne.symm hne)
          · exact hfirst _ (List.mem_map.2 ⟨e, he, rfl⟩)

/-- Signatures with different symbols, each of which has a property and is written as a declaration
is. -/
structure IsDeclared (P : String → Prop) (s : Signatures) : Prop where
  sorted : (s.map (·.1)).Pairwise (· < ·)
  symbols : ∀ e ∈ s, P e.1
  written : ∀ e ∈ s, ∃ d : DeclaredItem, d.IsTyped ∧ e = (d.symbol, d.signature)

/-- No signature needs no declaration. -/
theorem IsDeclared.nil (P : String → Prop) : IsDeclared P [] :=
  ⟨.nil, by simp, by simp⟩

/-- One more signature. -/
theorem IsDeclared.add {P : String → Prop} {s : Signatures} (h : IsDeclared P s) {d : DeclaredItem}
    (htyped : d.IsTyped) (hd : P d.symbol) : IsDeclared P
    (addSignature d.symbol d.signature s) := by
  refine ⟨sorted_addSignature h.sorted, fun e he => ?_, fun e he => ?_⟩
  · rcases mem_addSignature he with rfl | he
    · exact hd
    · exact h.symbols e he
  · rcases mem_addSignature he with rfl | he
    · exact ⟨d, htyped, rfl⟩
    · exact h.written e he

/-- Signatures are the text of declarations. -/
theorem IsDeclared.items {P : String → Prop} {s : Signatures} (h : IsDeclared P s) :
    ∃ declared : List DeclaredItem, (∀ d ∈ declared, d.IsTyped) ∧
      s = declared.map fun d => (d.symbol, d.signature) := by
  obtain ⟨-, -, hwritten⟩ := h
  induction s with
  | nil => exact ⟨[], fun _ hd => absurd hd List.not_mem_nil, rfl⟩
  | cons e s ih =>
      obtain ⟨d, hd, rfl⟩ := hwritten e List.mem_cons_self
      obtain ⟨declared, htyped, rfl⟩ := ih fun e he => hwritten e (List.mem_cons_of_mem _ he)
      exact ⟨d :: declared, List.forall_mem_cons.2 ⟨hd, htyped⟩, rfl⟩

/-- The signature that a call shows is the one of a declaration. -/
theorem signatureOf_ok {op : Operation} {callee signature : String}
    (h : signatureOf op callee = .ok signature) :
    ∃ d : DeclaredItem, d.IsTyped ∧ d.symbol = callee ∧ d.signature = signature := by
  obtain ⟨xs, -, h⟩ := Except.bind_ok_iff.1 h
  obtain rfl := Except.ok.inj h
  refine ⟨⟨callee, if op.result.isSome then "i32" else "void", xs.map (·.type)⟩, ⟨?_, ?_⟩, rfl, rfl⟩
  · dsimp only
    split <;> simp
  · refine List.forall_mem_map.2 fun x _ => ?_
    cases x <;> simp [Operand.type]

/-- The functions that calls name and that are not defined. -/
theorem callSignatures_isDeclared {defined : List String} {calls : List Operation}
    {P : String → Prop} {s s' : Signatures} (hs : IsDeclared P s)
    (hcalls : ∀ op ∈ calls, ∀ callee, op.operandSymbol? 0 = some callee → callee ∉ defined →
      P callee) (h : callSignatures defined s calls = .ok s') : IsDeclared P s' := by
  induction calls generalizing s with
  | nil =>
      cases h
      exact hs
  | cons op calls ih =>
      have hrest : ∀ op ∈ calls, ∀ callee, op.operandSymbol? 0 = some callee → callee ∉ defined →
          P callee := fun op hop => hcalls op (List.mem_cons_of_mem _ hop)
      rw [callSignatures] at h
      split at h
      · exact ih hs hrest h
      · rename_i callee hcallee
        split at h
        · exact ih hs hrest h
        · rename_i hnew
          obtain ⟨signature, hsignature, h⟩ := Except.bind_ok_iff.1 h
          obtain ⟨d, htyped, rfl, rfl⟩ := signatureOf_ok hsignature
          rw [not_or] at hnew
          exact ih (hs.add htyped (hcalls op List.mem_cons_self d.symbol hcallee hnew.1)) hrest h

/-- The functions without a body. -/
theorem foldl_addSignature_isDeclared {P : String → Prop} {declared : List String} {s : Signatures}
    (hs : IsDeclared P s) (hdeclared : ∀ symbol ∈ declared, P symbol) :
    IsDeclared P
    (declared.foldl (fun s symbol => addSignature symbol s!"void @{symbol}()" s) s) := by
  induction declared generalizing s with
  | nil => exact hs
  | cons symbol declared ih =>
      have hsignature : s!"void @{symbol}()" = DeclaredItem.signature ⟨symbol, "void", []⟩ := by
        simp only [DeclaredItem.signature, commaSeparated, String.append_assoc]
        rfl
      rw [List.foldl_cons, hsignature]
      have htyped : DeclaredItem.IsTyped ⟨symbol, "void", []⟩ := ⟨by simp, by simp⟩
      refine ih (hs.add htyped (hdeclared symbol List.mem_cons_self)) ?_
      exact fun other hother => hdeclared other (List.mem_cons_of_mem _ hother)

/-! ### The text -/

/-- The text of a global is that of an item with its symbol. -/
theorem globalText_ok {op : Operation} {text : String} (h : globalText op = .ok text) :
    ∃ g : GlobalItem, g.symbol = (op.operandSymbol? 0).getD "" ∧ text = g.render := by
  rw [globalText] at h
  dsimp only at h
  split at h
  · cases h
  · rename_i size hsize
    obtain rfl := Except.ok.inj h
    exact ⟨⟨_, size, op.intAttr? "address"⟩, rfl, rfl⟩

/-- The text of a function is that of an item laid out from its body. -/
theorem functionText_ok {symbol text : String} {body : Forest Operation}
    (h : functionText symbol body = .ok text) :
    ∃ f : DefinedItem, f.IsOf (symbol, body) ∧ text = f.render := by
  obtain ⟨lines, hlines, h⟩ := Except.bind_ok_iff.1 h
  obtain rfl := Except.ok.inj h
  exact ⟨⟨symbol, lines⟩, ⟨rfl, hlines⟩, rfl⟩

/-- A list of texts, each of which is an item's, is the text of a list of items. -/
theorem exists_items {α β : Type} {f : α → Except EmitError String} {R : α → β → Prop}
    {render : β → String} (hf : ∀ a text, f a = .ok text → ∃ b, R a b ∧ text = render b)
    {as : List α} {texts : List String} (h : as.mapM f = .ok texts) :
    ∃ bs : List β, List.Forall₂ R as bs ∧ texts = bs.map render := by
  rw [Except.mapM_ok_iff] at h
  induction h with
  | nil => exact ⟨[], .nil, rfl⟩
  | cons hb _ ih =>
      obtain ⟨b, hkey, rfl⟩ := hf _ _ hb
      obtain ⟨bs, hkeys, rfl⟩ := ih
      exact ⟨b :: bs, .cons hkey hkeys, rfl⟩

/-- Items have the keys of what they stand for. -/
theorem map_eq_of_forall₂ {α β κ : Type} {R : α → β → Prop} {key : β → κ} {k : α → κ}
    (hR : ∀ a b, R a b → key b = k a) {as : List α} {bs : List β} (h : List.Forall₂ R as bs) :
    bs.map key = as.map k := by
  induction h with
  | nil => rfl
  | cons hb _ ih => rw [List.map_cons, List.map_cons, hR _ _ hb, ih]

/-- The sections of the text of a program: the globals and functions at the top are introduced as
often as they stand there, the latter with the lines of their bodies, and declared is, once, what
has no body or is called and not defined. -/
theorem backendText_sections {ops : Forest Operation} {text : String}
    (h : backendText ops = .ok text) :
    ∃ s : Sections, text = s.render ∧
      List.Forall₂ (fun d f => f.IsOf d) (functionBodies ops) s.defined ∧
      s.globalSymbols = rootSymbols ops .global ∧
      s.definedSymbols = rootSymbols ops .definition ∧ s.declaredSymbols.Nodup ∧
      (∀ d ∈ s.declared, d.IsTyped) ∧
      ∀ symbol ∈ s.declaredSymbols, symbol ∈ rootSymbols ops .declaration ∨
        symbol ∉ s.definedSymbols ∧ ∃ op ∈ ops.preorder, op.is "llvm.call" = true ∧
          op.operandSymbol? 0 = some symbol := by
  rw [backendText] at h
  obtain ⟨units, hunits, h⟩ := Except.bind_ok_iff.1 h
  obtain ⟨called, hcalled, h⟩ := Except.bind_ok_iff.1 h
  obtain ⟨globalTexts, hglobals, h⟩ := Except.bind_ok_iff.1 h
  obtain ⟨functionTexts, hfunctions, h⟩ := Except.bind_ok_iff.1 h
  obtain rfl := Except.ok.inj h
  obtain ⟨hglobalroots, hdefinedroots, hdeclaredroots⟩ := unitsOf_ok hunits
  obtain ⟨globals, hglobalitems, rfl⟩ := exists_items (fun _ _ => globalText_ok) hglobals
  obtain ⟨defined, hdefineditems, rfl⟩ :=
    exists_items (R := fun d f => DefinedItem.IsOf f d) (fun _ _ => functionText_ok) hfunctions
  have hglobalsymbols := map_eq_of_forall₂ (fun _ _ h => h) hglobalitems
  have hdefinedsymbols := map_eq_of_forall₂ (fun _ _ h => h.symbol) hdefineditems
  have hcalls := callSignatures_isDeclared (P := fun symbol =>
      symbol ∈ rootSymbols ops .declaration ∨ symbol ∉ units.defined.map (·.1) ∧
        ∃ op ∈ ops.preorder, op.is "llvm.call" = true ∧ op.operandSymbol? 0 = some symbol)
    (.nil _) (fun op hop callee hcallee hnot => by
      obtain ⟨hmem, hcall⟩ := List.mem_filter.1 hop
      exact .inr ⟨hnot, op, hmem, hcall, hcallee⟩) hcalled
  have hall := foldl_addSignature_isDeclared hcalls
    fun symbol (hsymbol : symbol ∈ units.declared) => .inl (hdeclaredroots ▸ hsymbol)
  obtain ⟨declared, htyped, hdeclared⟩ := hall.items
  refine ⟨⟨globals, declared, defined⟩, ?_, unitsOf_defined hunits ▸ hdefineditems, ?_,
    ?_, ?_, htyped,
    ?_⟩
  · rw [hdeclared]
    show _ = _ ++ paragraph _ ++ paragraph _ ++ String.join _
    rw [List.map_map]
    rfl
  · exact hglobalsymbols.trans hglobalroots
  · exact hdefinedsymbols.trans hdefinedroots
  · have := hall.sorted
    rw [hdeclared, List.map_map] at this
    exact this.imp fun hlt => ne_of_lt hlt
  · intro symbol hsymbol
    obtain ⟨d, hd, rfl⟩ := List.mem_map.1 hsymbol
    have := hall.symbols (d.symbol, d.signature)
      (hdeclared ▸ List.mem_map.2 ⟨d, hd, rfl⟩)
    rwa [← hdefinedsymbols] at this

end Backend

/-- The text of a program is that of its contents. -/
theorem Program.backendText_ok {p : Program} {text : String}
    (h : p.backendText = .ok text) :
    TileFlow.backendText p.contents = .ok text := by
  rw [Program.backendText] at h
  cases hcontents : TileFlow.backendText p.contents with
  | error e => rw [hcontents] at h; cases h
  | ok t => rw [hcontents] at h; exact congrArg _ (Except.ok.inj h)

end TileFlow
