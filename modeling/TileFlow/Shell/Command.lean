/-!
# Commands of scripts

A command is made of words and of other commands. A word is made of pieces, some of which stand
for other text: the value of a parameter, the output of commands, or the value of an arithmetic
expression.

## Main definitions

* `Piece`, `Word`: words with what stands for other text in them.
* `Usage`: what becomes of the value of a parameter.
* `Redirection`: where a stream of a command leads.
* `Command`: commands.
-/

namespace TileFlow.Script

/-- What becomes of the value of a parameter. An empty value counts as missing where `nullToo`
says so. -/
inductive Usage where
  | value
  | length
  /-- Another text if it is missing. -/
  | orElse (nullToo : Bool)
  /-- Another text if it is missing, which becomes its value. -/
  | orAssign (nullToo : Bool)
  /-- The end of the script if it is missing. -/
  | orFail (nullToo : Bool)
  /-- Another text unless it is missing. -/
  | ifPresent (nullToo : Bool)
  | dropStart (longest : Bool)
  | dropEnd (longest : Bool)
  /-- A usage that does not exist. -/
  | unknown
  deriving DecidableEq, Repr

/-- What a redirection does with a stream. -/
inductive RedirectKind where
  | read
  | write
  /-- Writing over an existing file even where that is guarded. -/
  | overwrite
  | append
  | readWrite
  | duplicate
  /-- Reading a text of the script itself, one of those that were set aside. -/
  | document (index : Nat)
  deriving DecidableEq, Repr

/-- A stream of a command led elsewhere. -/
structure Redirection (α : Type) where
  stream : Nat
  kind : RedirectKind
  target : α

mutual

/-- A piece of a word. -/
inductive Piece where
  | char (c : Char)
  /-- A character with a backslash before it. -/
  | escaped (c : Char)
  /-- What stands between quotes, which is part of the word even if it is nothing. -/
  | quoted (pieces : List Piece)
  | parameter (name : String) (usage : Usage) (word : List Piece)
  /-- What commands write. -/
  | output (commands : Command)
  | arithmetic (expression : List Piece)

/-- A command. Commands that can be complained of know the line they are on. -/
inductive Command where
  | nothing
  | simple (line : Nat) (assignments : List (String × List Piece)) (words : List (List Piece))
      (redirections : List (Redirection (List Piece)))
  | pipeline (stages : List Command)
  | seq (first second : Command)
  | both (first second : Command)
  | either (first second : Command)
  | negate (command : Command)
  | branch (condition yes no : Command)
  /-- Repeats the body as long as the condition has the given outcome. -/
  | loop (outcome : Bool) (condition body : Command)
  | forEach (line : Nat) (name : String) (items : List (List Piece)) (body : Command)
  /-- Runs the first command one of whose patterns fits the subject. -/
  | select (line : Nat) (subject : List Piece) (arms : List (List (List Piece) × Command))
  | define (line : Nat) (name : String) (body : Command)
  /-- Runs a command in a copy of the shell. -/
  | nested (line : Nat) (command : Command) (redirections : List (Redirection (List Piece)))
  | background (line : Nat) (command : Command)
  | redirected (line : Nat) (command : Command) (redirections : List (Redirection (List Piece)))

end

/-- A word before its pieces are replaced. -/
abbrev Word := List Piece

/-- The character of a piece that stands for itself and is not quoted. -/
def Piece.plain? : Piece → Option Char
  | .char c => some c
  | _ => none

/-- The text of a word without quotes and without pieces that stand for other text. -/
def Word.plain? (w : Word) : Option String :=
  (w.mapM Piece.plain?).map String.ofList

/-! ### Names -/

/-- Whether a character may start a name. -/
def isNameStart (c : Char) : Bool :=
  c.isAlpha || c == '_'

/-- Whether a character may stand in a name. -/
def isNameChar (c : Char) : Bool :=
  c.isAlphanum || c == '_'

/-- Whether a character is the name of a parameter by itself. -/
def isSpecialParameter (c : Char) : Bool :=
  c.isDigit || "#?$!-*@".toList.contains c

/-- Whether a text is a name. -/
def isName (name : List Char) : Bool :=
  match name with
  | [] => false
  | c :: rest => isNameStart c && rest.all isNameChar

/-- The name and the value of a word that assigns. -/
def Word.assignment? (w : Word) : Option (String × Word) :=
  let name := (w.takeWhile fun p => (p.plain?.map isNameChar).getD false).filterMap Piece.plain?
  match w.drop name.length with
  | .char '=' :: value => if isName name then some (String.ofList name, value) else none
  | _ => none

/-- The name and the value of a text that assigns. -/
def assignment? (text : String) : Option (String × String) :=
  let name := text.toList.takeWhile isNameChar
  match text.toList.drop name.length with
  | '=' :: value =>
    if isName name then some (String.ofList name, String.ofList value) else none
  | _ => none

/-! ### Repetition -/

/-- The outcome of one turn of a repetition: another turn, or the end. -/
inductive Turn (α β : Type) where
  | again (state : α)
  | done (result : β)

/-- Takes turns until one ends the repetition, or the given number of them is used up. -/
@[specialize]
def repeatUpTo {m : Type → Type} [Monad m] {α β : Type} (exhausted : m β)
    (turn : α → m (Turn α β)) : Nat → α → m β
  | 0, _ => exhausted
  | n + 1, state => do
    match ← turn state with
    | .again state => repeatUpTo exhausted turn n state
    | .done result => pure result

end TileFlow.Script
