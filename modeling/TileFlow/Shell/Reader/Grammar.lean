import TileFlow.Shell.Reader.Word

/-!
# Reading commands

Commands are read from tokens. Whether a word is reserved depends on where it stands, so that
each place asks for its token itself. A token that belongs to what comes next is put back.

## Main definitions

* `nextToken`: the next word or operator.
* `readList`, `readCommand`: lists of commands and single ones.
* `Reader.next?`: the commands of the next line.
-/

namespace TileFlow.Script

/-- The words that only stand for themselves where no command can start. -/
def reservedWords : List String :=
  ["!", "case", "do", "done", "elif", "else", "esac", "fi", "for", "if", "in", "then", "until",
    "while", "\x7b", "\x7d"]

/-- The reserved words and operators that end a list of commands. -/
def endsList : Token → Bool
  | .reserved name => ["do", "done", "elif", "else", "esac", "fi", "then", "\x7d"].contains name
  | .operator name => [";;", ")"].contains name
  | .endOfFile => true
  | _ => false

/-- The commands of the shell itself whose names no function can take. -/
def specialBuiltins : List String :=
  [".", ":", "break", "continue", "eval", "exec", "exit", "export", "readonly", "return", "set",
    "shift", "times", "trap", "unset"]

namespace Reader

/-! ### Texts below a command -/

/-- The lines up to one that ends a text, and what follows that line. Where lines can be joined,
one that is joined to the last one does not end the text. -/
def documentLines (d : AwaitedDocument) :
    Nat → Bool → List Char → List (List Char) × List Char
  | 0, _, rest => ([], rest)
  | n + 1, joined, rest =>
    if rest.isEmpty then ([], [])
    else
      let rest := if d.stripTabs ∧ ¬ joined then rest.dropWhile (· == '\t') else rest
      let line := rest.takeWhile (· != '\n')
      let after := rest.drop line.length
      if line = d.lastLine.toList ∧ ¬ joined then ([], after.drop 1)
      else
        let backslashes := (line.reverse.takeWhile (· == '\\')).length
        let (lines, end') := documentLines d n (¬ d.literal ∧ backslashes % 2 = 1) (after.drop 1)
        ((line ++ after.take 1) :: lines, end')

/-- Reads a text and sets it aside. -/
def readDocument (self : ReadPart) (d : AwaitedDocument) : Reading Unit := do
  let r ← get
  let (lines, rest) := documentLines d (r.rest.length + 1) false r.rest
  let body := lines.flatten
  let text ← if d.literal then pure (body.map Piece.escaped) else do
    set { r with rest := body, awaited := [] }
    self (.pieces .document)
  let consumed := r.rest.take (r.rest.length - rest.length)
  modify fun s => { r with
    rest
    line := r.line + consumed.count '\n'
    documents := s.documents.setIfInBounds d.index text }

/-- Reads the texts that the commands of a line refer to. -/
def readAwaited (self : ReadPart) : Reading Unit := do
  let awaited := (← get).awaited
  modify fun r => { r with awaited := [] }
  awaited.forM (readDocument self)

/-! ### Tokens -/

/-- Reads blanks and comments. -/
def skipBlanks : Reading Unit := do
  let _ ← takeWhile fun c => c == ' ' || c == '\t'
  if (← peek) = some '#' then
    modify fun r => { r with rest := r.rest.dropWhile (· != '\n') }

/-- One of two operators, the longer of which doubles its character. -/
def doubled (c : Char) : Reading Token := do
  return .operator (if ← takeIf c then String.ofList [c, c] else String.singleton c)

/-- A redirection from its mark on, where `digits` name the stream. -/
def readRedirection (digits : List Char) (mark : Char) : Reading Token := do
  let stream (byDefault : Nat) : Nat := match digits with
    | c :: _ => c.toNat - '0'.toNat
    | [] => byDefault
  if mark = '>' then
    let kind : RedirectKind ←
      if ← takeIf '>' then pure .append
      else if ← takeIf '|' then pure .overwrite
      else if ← takeIf '&' then pure .duplicate
      else pure .write
    return .redirection (stream 1) kind false
  else if ← takeIf '<' then
    let stripTabs ← takeIf '-'
    return .redirection (stream 0) (.document 0) stripTabs
  else
    let kind : RedirectKind ←
      if ← takeIf '&' then pure .duplicate
      else if ← takeIf '>' then pure .readWrite
      else pure .read
    return .redirection (stream 0) kind false

/-- A word, or a redirection whose stream the word names. -/
def readWordToken (self : ReadPart) (ground : Ground) : Reading Token := do
  let w ← readPieces self ground
  match ← peek, Word.plain? w with
  | some c, some text =>
    let digits := text.toList
    if (c = '<' ∨ c = '>') ∧ digits.length ≤ 1 ∧ digits.all Char.isDigit then
      let _ ← takeRaw
      readRedirection digits c
    else return .word w
  | _, _ => return .word w

/-- The next token, read from characters. -/
def readToken (self : ReadPart) (ground : Ground) : Reading Token := do
  skipBlanks
  match ← peek with
  | none =>
    readAwaited self
    return .endOfFile
  | some c =>
    if c = '\n' then
      let _ ← takeRaw
      readAwaited self
      return .newline
    else if c = '&' ∨ c = '|' ∨ c = ';' then
      let _ ← takeRaw
      doubled c
    else if c = '(' ∨ c = ')' then
      let _ ← takeRaw
      return .operator (String.singleton c)
    else readWordToken self ground

/-- The token that was put back, or else the next one. -/
def rawToken (self : ReadPart) (ground : Ground) : Reading Token := do
  match (← get).unread with
  | some t =>
    modify fun r => { r with unread := none }
    return t
  | none => readToken self ground

/-- Where a token is asked for: whether words can be reserved, and whether lines can end
before it. -/
structure Place where
  reserved : Bool := false
  below : Bool := false

/-- A place where a command can start, on this line. -/
def Place.start : Place := ⟨true, false⟩

/-- A place where a command can start, on this line or below. -/
def Place.startBelow : Place := ⟨true, true⟩

/-- A word that is reserved, taken as such. -/
def reserve (t : Token) : Token :=
  match t with
  | .word w =>
    match Word.plain? w with
    | some name => if reservedWords.contains name then .reserved name else t
    | none => t
  | _ => t

/-- The next token at a place. -/
def nextToken (self : ReadPart) (place : Place := {}) : Reading Token := do
  let t ← if place.below then
      repeated (α := Unit) (fun () => do
        match ← rawToken self .word with
        | .newline => return .again ()
        | t => return .done t) ()
    else rawToken self .word
  return if place.reserved then reserve t else t

/-- Reads a token that must come next. -/
def expect (self : ReadPart) (name : String) (place : Place := {}) : Reading Unit := do
  let t ← nextToken self place
  match t with
  | .reserved found | .operator found =>
    if found = name then return () else refuseToken t (some name)
  | _ => refuseToken t (some name)

/-! ### Simple commands -/

/-- The text of a word in which nothing stands for other text, without its quotes. -/
def literalText (w : Word) : List Char :=
  w.flatMap fun
    | .char c | .escaped c => [c]
    | .quoted pieces => pieces.filterMap fun
      | .char c | .escaped c => some c
      | _ => none
    | _ => []

/-- A text to be read below the command, for the word that ends it. -/
def awaitDocument (w : Word) (stripTabs : Bool) : Reading Nat := do
  let r ← get
  let index := r.documents.size
  let d : AwaitedDocument :=
    { index, stripTabs
      lastLine := String.ofList (literalText w)
      literal := (Word.plain? w).isNone }
  set { r with documents := r.documents.push [], awaited := r.awaited ++ [d] }
  return index

/-- A redirection with what it leads to. -/
def readTarget (self : ReadPart) (stream : Nat) (kind : RedirectKind) (stripTabs : Bool) :
    Reading (Redirection Word) := do
  let ground : Ground := match kind with
    | .document _ => .mark
    | _ => .word
  match ← rawToken self ground with
  | .word w =>
    match kind with
    | .document _ => return ⟨stream, .document (← awaitDocument w stripTabs), []⟩
    | _ => return ⟨stream, kind, w⟩
  | t => refuseToken t

/-- The parts of a simple command. -/
structure SimpleParts where
  assignments : List (String × Word) := []
  words : List Word := []
  redirections : List (Redirection Word) := []

/-- A function whose name was read. -/
def readFunction (self : ReadPart) (w : Word) : Reading Command := do
  expect self ")"
  match Word.plain? w with
  | none => refuse "Bad function name"
  | some name =>
    if ¬ isName name.toList ∨ specialBuiltins.contains name then refuse "Bad function name"
    else
      let r ← get
      return .define r.line name (← self .body)

/-- A simple command or a function. -/
def readSimple (self : ReadPart) : Reading Command := do
  let first ← rawToken self .word
  let line := (← get).line
  putBack first
  repeated (α := SimpleParts) (fun parts => do
    match ← nextToken self with
    | .word w =>
      match Word.assignment? w, parts.words with
      | some a, [] => return .again { parts with assignments := parts.assignments ++ [a] }
      | _, _ => return .again { parts with words := parts.words ++ [w] }
    | .redirection stream kind stripTabs =>
      let r ← readTarget self stream kind stripTabs
      return .again { parts with redirections := parts.redirections ++ [r] }
    | t =>
      match t, parts with
      | .operator "(", ⟨[], [w], []⟩ => return .done (← readFunction self w)
      | _, _ =>
        putBack t
        return .done (.simple line parts.assignments parts.words parts.redirections)) {}

/-! ### Commands with parts -/

/-- The redirections after a command. -/
def readRedirections (self : ReadPart) : Reading (List (Redirection Word)) :=
  repeated (α := List (Redirection Word)) (fun found => do
    match ← nextToken self .start with
    | .redirection stream kind stripTabs =>
      return .again (found ++ [← readTarget self stream kind stripTabs])
    | t =>
      putBack t
      return .done found) []

/-- The branches of a conditional after its first word. -/
def readBranches (self : ReadPart) : Reading Command := do
  let readBranch : Reading (Command × Command) := do
    let condition ← self (.commands .block)
    expect self "then"
    return (condition, ← self (.commands .block))
  let first ← readBranch
  let (branches, last) ← repeated (α := List (Command × Command)) (fun branches => do
    match ← nextToken self with
    | .reserved "elif" => return .again ((← readBranch) :: branches)
    | .reserved "else" => return .done (branches, ← self (.commands .block))
    | t =>
      putBack t
      return .done (branches, .nothing)) [first]
  expect self "fi"
  return branches.foldl (fun no (condition, yes) => .branch condition yes no) last

/-- A loop after its first word, with the outcome of the condition that keeps it going. -/
def readLoop (self : ReadPart) (outcome : Bool) : Reading Command := do
  let condition ← self (.commands .block)
  expect self "do"
  let body ← self (.commands .block)
  expect self "done"
  return .loop outcome condition body

/-- The words up to the end of a line or command. -/
def readItems (self : ReadPart) : Reading (List Word) :=
  repeated (α := List Word) (fun items => do
    match ← nextToken self with
    | .word w => return .again (items ++ [w])
    | .newline | .operator ";" => return .done items
    | t => refuseToken t) []

/-- A loop over items after its first word. -/
def readForEach (self : ReadPart) (line : Nat) : Reading Command := do
  let name ← match ← nextToken self with
    | .word w =>
      match Word.plain? w with
      | some name => if isName name.toList then pure name else refuse "Bad for loop variable"
      | none => refuse "Bad for loop variable"
    | _ => refuse "Bad for loop variable"
  let items ← match ← nextToken self .startBelow with
    | .reserved "in" => readItems self
    | t => do
      (match t with
        | .operator ";" => pure ()
        | _ => putBack t)
      pure [[.quoted [.parameter "@" .value []]]]
  expect self "do" .startBelow
  let body ← self (.commands .block)
  expect self "done"
  return .forEach line name items body

/-- The word of a token that is taken as a pattern. -/
def patternOf : Token → Word
  | .word w => w
  | .reserved name => name.toList.map .char
  | _ => []

/-- The patterns of one arm, from the first one on. -/
def readPatterns (self : ReadPart) (first : Token) : Reading (List Word) := do
  let first ← match first with
    | .operator "(" => nextToken self
    | t => pure t
  repeated (α := List Word) (fun patterns => do
    match ← nextToken self with
    | .operator "|" => return .again (patterns ++ [patternOf (← nextToken self)])
    | .operator ")" => return .done patterns
    | t => refuseToken t (some ")")) [patternOf first]

/-- The choice between patterns after its first word. -/
def readSelect (self : ReadPart) (line : Nat) : Reading Command := do
  let subject ← match ← nextToken self with
    | .word w => pure w
    | t => refuse s!"{t.describe} unexpected (expecting word)"
  expect self "in" .startBelow
  let arms ← repeated (α := List (List Word × Command)) (fun arms => do
    match ← nextToken self .startBelow with
    | .reserved "esac" => return .done arms
    | t =>
      let patterns ← readPatterns self t
      let arms := arms ++ [(patterns, ← self (.commands .possiblyEmpty))]
      match ← nextToken self .startBelow with
      | .operator ";;" => return .again arms
      | .reserved "esac" => return .done arms
      | t => refuseToken t (some ";;")) []
  return .select line subject arms

/-- The command that a reserved word or a parenthesis starts, if it starts one. -/
def readCompound? (self : ReadPart) (line : Nat) (t : Token) : Reading (Option Command) := do
  match t with
  | .reserved "if" => return some (← readBranches self)
  | .reserved "while" => return some (← readLoop self true)
  | .reserved "until" => return some (← readLoop self false)
  | .reserved "for" => return some (← readForEach self line)
  | .reserved "case" => return some (← readSelect self line)
  | .reserved "\x7b" =>
    let commands ← self (.commands .block)
    expect self "\x7d"
    return some commands
  | .operator "(" =>
    let commands ← self (.commands .block)
    expect self ")"
    return some (.nested line commands [])
  | _ => return none

/-- A command with redirections. -/
def withRedirections (line : Nat) (command : Command) (redirections : List (Redirection Word)) :
    Command :=
  match command, redirections with
  | .nested line command [], _ => .nested line command redirections
  | _, [] => command
  | _, _ => .redirected line command redirections

/-- A command at a place. -/
def readCommand (self : ReadPart) (place : Place) : Reading Command := do
  let line := (← get).line
  let t ← nextToken self place
  match t with
  | .word _ | .redirection .. =>
    putBack t
    readSimple self
  | _ =>
    match ← readCompound? self line t with
    | some command => return withRedirections line command (← readRedirections self)
    | none => refuseToken t

/-! ### Lists -/

/-- Commands whose streams lead into each other. -/
def readPipeline (self : ReadPart) (place : Place) : Reading Command := do
  let t ← nextToken self place
  let negated := match t with
    | .reserved "!" => true
    | _ => false
  let first ← if negated then readCommand self .start else do
    putBack t
    readCommand self {}
  let stages ← repeated (α := List Command) (fun stages => do
    match ← nextToken self with
    | .operator "|" => return .again (stages ++ [← readCommand self .startBelow])
    | t =>
      putBack t
      return .done stages) [first]
  let command := match stages with
    | [command] => command
    | _ => .pipeline stages
  return if negated then .negate command else command

/-- Commands that depend on each other's outcome. -/
def readAndOr (self : ReadPart) : Reading Command := do
  let first ← readPipeline self {}
  repeated (α := Command) (fun first => do
    match ← nextToken self with
    | .operator "&&" => return .again (.both first (← readPipeline self .startBelow))
    | .operator "||" => return .again (.either first (← readPipeline self .startBelow))
    | t =>
      putBack t
      return .done first) first

/-- One command after others. -/
def andThen (commands : Option Command) (command : Command) : Command :=
  match commands with
  | none => command
  | some first => .seq first command

/-- One turn of reading a list of commands. -/
def readListTurn (self : ReadPart) (listEnd : ListEnd) (commands : Option Command) :
    Reading (Turn (Option Command) Command) := do
  let ended : Command := commands.getD .nothing
  let t ← nextToken self ⟨true, listEnd ≠ .line⟩
  match t, listEnd with
  | .newline, _ => return .done ended
  | .endOfFile, _ =>
    putBack t
    return .done ended
  | _, _ =>
    putBack t
    if (listEnd = .possiblyEmpty ∨ (listEnd = .block ∧ commands.isSome)) ∧ endsList t then
      return .done ended
    else
      let line := (← get).line
      let command ← readAndOr self
      let after ← nextToken self
      let command := match after with
        | .operator "&" => .background line command
        | _ => command
      let commands := andThen commands command
      match after with
      | .operator "&" | .operator ";" => return .again (some commands)
      | .newline =>
        putBack after
        return .again (some commands)
      | .endOfFile =>
        putBack after
        return .done commands
      | t =>
        if listEnd = .line then refuseToken t
        else
          putBack t
          return .done commands

/-- A list of commands. -/
def readList (self : ReadPart) (listEnd : ListEnd) : Reading Command :=
  repeated (readListTurn self listEnd) none

/-- One layer of reading a part, for a function that reads the parts inside of it. -/
def readPartStep (self : ReadPart) : ReadPart
  | .pieces g => readPieces self g
  | .commands listEnd => readList self listEnd
  | .body => readCommand self .startBelow

/-- Reads a part of a script whose parts are nested at most to the given depth. -/
def readPart : Nat → ReadPart
  | 0 => fun _ => refuse "input nested too deeply"
  | depth + 1 => fun p => readPartStep (readPart depth) p

/-- Whether there is nothing left but the end. -/
def isAtEnd (r : Reader) : Bool :=
  match r.unread with
  | some .endOfFile => true
  | _ => false

/-- The commands of the next line, with the reader behind them; none at the end of the script.
Each part that is nested starts with a character of its own, which bounds the depth. -/
def next? (r : Reader) : Except SyntaxError (Option Command × Reader) := do
  let r := { r with unread := none, awaited := [] }
  let (command, r) ← (readPart (r.rest.length + 2) (.commands .line)).run r
  match command with
  | .nothing => return (if r.isAtEnd then none else some .nothing, r)
  | _ => return (some command, r)

end Reader

end TileFlow.Script
