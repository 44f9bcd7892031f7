import TileFlow.Shell.Builtin.Arguments

/-!
# Commands on variables, arguments and options

## Main definitions

* `Builtin.exportNames`, `Builtin.readonly`, `Builtin.unset`, `Builtin.makeLocal`: variables.
* `Builtin.set`, `Builtin.shift`: arguments and options.
* `Builtin.getopts`: options of the script, one at a time.
* `assignFields`: the parts of a line as variables.
* `Builtin.read`: the next line of the input as variables.
-/

namespace TileFlow.Script

namespace Sh

/-- The start of a text that should be the name of a variable. -/
def nameBeforeValue (text : String) : String :=
  String.ofList (text.toList.takeWhile (· != '='))

/-- The name and the value of an argument that may assign. -/
def assignmentOf (arg : String) : Sh (String × Option String) := do
  let name := nameBeforeValue arg
  if isName name.toList then
    return (name, if name = arg then none else some
      (String.ofList (arg.toList.drop (name.length + 1))))
  else fail s!"{name}: bad variable name"

/-- Assigns to a variable whose name is given by an argument. -/
def assignNamed (name value : String) : Sh Unit := do
  if isName name.toList then assign name value else fail s!"{name}: bad variable name"

/-- The lines that would bring variables back, in the order of their names. -/
def listing (mark : String) (shown : Variable → Bool) : Sh String := do
  let bindings := ((← shell).bindings.filter fun (_, v) => shown v).mergeSort
    fun a b => decide (a.1 ≤ b.1)
  return String.join (bindings.map fun (name, v) =>
    mark ++ name ++ (match v.value with
      | some value => "=" ++ singleQuoted value
      | none => "") ++ "\n")

/-- Marks variables, and gives those a value that are given one. -/
def markAll (mark : Variable → Variable) (args : List String) : Sh Unit :=
  args.forM fun arg => do
    let (name, value) ← assignmentOf arg
    (match value with
      | some value => assign name value
      | none => pure ())
    putVariable name (some (mark ((← lookup? name).getD {})))

end Sh

namespace Builtin

/-- Exports variables, or lists those that are. -/
def exportNames (args : List String) : Sh Nat := do
  let (options, names) ← Sh.options ['p'] [] args
  if options.isEmpty ∧ ¬ names.isEmpty then
    Sh.markAll (fun v => { v with exported := true }) names
    return 0
  else Sh.answer (← Sh.listing "export " (·.exported))

/-- Makes variables read only, or lists those that are. -/
def readonly (args : List String) : Sh Nat := do
  let (options, names) ← Sh.options ['p'] [] args
  if options.isEmpty ∧ ¬ names.isEmpty then
    Sh.markAll (fun v => { v with readOnly := true }) names
    return 0
  else Sh.answer (← Sh.listing "readonly " (·.readOnly))

/-- Forgets variables or functions. -/
def unset (args : List String) : Sh Nat := do
  let (options, names) ← Sh.options ['f', 'v'] [] args
  names.forM fun name => do
    if (options.getLast?.map (·.1)) = some 'f' then
      Sh.modifyShell fun s => { s with functions := s.functions.filter (·.1 != name) }
    else if isName name.toList then Sh.unset name
    else Sh.fail s!"{Sh.nameBeforeValue name}: bad variable name"
  return 0

/-- Gives the function that runs variables of its own. -/
def makeLocal (args : List String) : Sh Nat := do
  if (← Sh.shell).saved.isEmpty then Sh.fail "not in a function"
  else
    args.forM fun arg => do
      let (name, value) ← Sh.assignmentOf arg
      Sh.makeLocal name
      match value with
      | some value => Sh.assign name value
      | none =>
        if (← Sh.lookup? name).isNone then Sh.putVariable name (some {})
    return 0

/-! ### Options -/

/-- An option by name and letter, with what it changes. Those without effect on a script change
nothing. -/
structure Switch where
  name : String
  letter : Option Char := none
  isOn : Options → Bool := fun _ => false
  set : Bool → Options → Options := fun _ o => o

/-- The options. -/
def switches : List Switch :=
  [{ name := "errexit", letter := some 'e', isOn := (·.exitOnError)
     set := fun b o => { o with exitOnError := b } },
    { name := "noglob", letter := some 'f', isOn := (·.noGlob)
      set := fun b o => { o with noGlob := b } },
    { name := "ignoreeof", letter := some 'I' },
    { name := "interactive", letter := some 'i' },
    { name := "monitor", letter := some 'm' },
    { name := "noexec", letter := some 'n', isOn := (·.noExec)
      set := fun b o => { o with noExec := b } },
    { name := "stdin", letter := some 's' },
    { name := "xtrace", letter := some 'x', isOn := (·.trace)
      set := fun b o => { o with trace := b } },
    { name := "verbose", letter := some 'v', isOn := (·.verbose)
      set := fun b o => { o with verbose := b } },
    { name := "vi", letter := some 'V' },
    { name := "emacs", letter := some 'E' },
    { name := "noclobber", letter := some 'C', isOn := (·.noClobber)
      set := fun b o => { o with noClobber := b } },
    { name := "allexport", letter := some 'a', isOn := (·.exportAll)
      set := fun b o => { o with exportAll := b } },
    { name := "notify", letter := some 'b' },
    { name := "nounset", letter := some 'u', isOn := (·.refuseUnset)
      set := fun b o => { o with refuseUnset := b } },
    { name := "privileged", letter := some 'p' },
    { name := "nolog" },
    { name := "debug" }]

/-- Turns an option on or off, if it is one. -/
def turn (found : Option Switch) (complaint : String) (on : Bool) : Sh Unit := do
  match found with
  | some switch => Sh.modifyShell fun s => { s with options := switch.set on s.options }
  | none => Sh.fail complaint

/-- Turns the option of a letter on or off. -/
def turnLetter (on : Bool) (c : Char) : Sh Unit :=
  turn (switches.find? (·.letter == some c)) s!"Illegal option -{c}" on

/-- Turns the option of a name on or off. -/
def turnNamed (on : Bool) (name : String) : Sh Unit :=
  turn (switches.find? (·.name == name)) s!"Illegal option -o {name}" on

/-- The options with their states. -/
def describeSwitches (o : Options) (on : Bool) : String :=
  if on then
    "Current option settings\n" ++ String.join (switches.map fun switch =>
      ({ width := 16, flags := ['-'] } : Form).writeText switch.name ++
        (if switch.isOn o then "on" else "off") ++ "\n")
  else
    String.join (switches.map fun switch =>
      (if switch.isOn o then "set -o " else "set +o ") ++ switch.name ++ "\n")

/-- Turns the options of some letters on or off. The letter for a name takes it from the next
argument. -/
def turnLetters (on : Bool) : List Char → List String → Sh (List String)
  | [], args => return args
  | c :: letters, args => do
    if c = 'o' then
      match args with
      | name :: args =>
        turnNamed on name
        turnLetters on letters args
      | [] =>
        let _ ← Sh.writeOutput (describeSwitches (← Sh.shell).options on)
        turnLetters on letters []
    else
      turnLetter on c
      turnLetters on letters args

/-- Replaces the arguments. -/
def replaceArguments (args : List String) : Sh Unit :=
  Sh.modifyShell fun s => { s with args, optionIndex := 1, optionOffset := none }

/-- Turns options on and off and replaces the arguments, in at most a number of steps. -/
def setFrom : Nat → List String → Sh Unit
  | 0, _ | _, [] => return ()
  | n + 1, arg :: rest => do
    match arg.toList with
    | ['-', '-'] => replaceArguments rest
    | ['-'] =>
      Sh.modifyShell fun s =>
        { s with options := { s.options with trace := false, verbose := false } }
      if rest.isEmpty then return () else replaceArguments rest
    | '-' :: letters => setFrom n (← turnLetters true letters rest)
    | '+' :: letters => setFrom n (← turnLetters false letters rest)
    | _ => replaceArguments (arg :: rest)

/-- Turns options on and off and replaces the arguments; without any it lists the variables. -/
def set (args : List String) : Sh Nat := do
  if args.isEmpty then Sh.answer (← Sh.listing "" (·.value.isSome))
  else
    setFrom args.length args
    return 0

/-- Takes away arguments from the start. -/
def shift (args : List String) : Sh Nat := do
  let n ← match args with
    | [] => pure 1
    | text :: _ => Sh.count text
  let s ← Sh.shell
  if s.args.length < n then Sh.fail "can't shift that many"
  else
    replaceArguments (s.args.drop n)
    return 0

/-! ### Options of the script -/

/-- The letters that are left of the argument that was looked at last. -/
def lettersLeft (s : Shell) (args : List String) : List Char :=
  match s.optionOffset, args[s.optionIndex - 2]? with
  | some offset, some arg => if s.optionIndex ≤ 1 then [] else arg.toList.drop offset
  | _, _ => []

/-- The letters to look at, with the number of the argument after them; none at the end of the
options. -/
def nextLetters (s : Shell) (args : List String) : Option (List Char) × Nat :=
  match lettersLeft s args with
  | [] =>
    match (args[s.optionIndex - 1]?).map String.toList with
    | some ['-', '-'] => (none, s.optionIndex + 1)
    | some ('-' :: c :: rest) => (some (c :: rest), s.optionIndex + 1)
    | _ => (none, s.optionIndex)
  | letters => (some letters, s.optionIndex)

/-- Whether a letter is described, and whether it has a value then. -/
def describedAs? (c : Char) : List Char → Option Bool
  | [] => none
  | [d] => if d = c then some false else none
  | d :: e :: rest =>
    if d = c then some (e == ':')
    else if e = ':' then describedAs? c rest
    else describedAs? c (e :: rest)

/-- What a step over the options of a script finds: a letter with its value, and the letters and
the argument to go on with. -/
structure FoundOption where
  letter : Char
  value : Option String
  left : List Char
  index : Nat

/-- The value of an option that has one: the letters behind it, or the next argument. -/
def optionValue? (args : List String) (rest : List Char) (index : Nat) : Option (String × Nat) :=
  if rest.isEmpty then (args[index - 1]?).map (·, index + 1)
  else some (String.ofList rest, index)

/-- The option at the start of some letters. -/
def takeOption (described : List Char) (args : List String) (c : Char) (rest : List Char)
    (index : Nat) : Sh FoundOption := do
  let quiet := described.head? = some ':'
  let single := String.singleton c
  match describedAs? c described with
  | none =>
    if quiet then return ⟨'?', some single, rest, index⟩
    else
      Sh.writeError s!"Illegal option -{c}\n"
      return ⟨'?', none, rest, index⟩
  | some false => return ⟨c, some "", rest, index⟩
  | some true =>
    match optionValue? args rest index with
    | some (value, index) => return ⟨c, some value, [], index⟩
    | none =>
      if quiet then return ⟨':', some single, [], index⟩
      else
        Sh.writeError s!"No arg for -{c} option\n"
        return ⟨'?', none, [], index⟩

/-- Takes a step over the options of the script. -/
def getopts (args : List String) : Sh Nat := do
  match ← Sh.operands args with
  | described :: name :: own =>
    let s ← Sh.shell
    let args := if own.isEmpty then s.args else own
    if args.length + 1 < s.optionIndex then
      Sh.modifyShell fun s => { s with optionIndex := 1, optionOffset := none }
    let (letters, index) := nextLetters (← Sh.shell) args
    let found ← match letters with
      | some (c :: rest) => do
        let found ← takeOption described.toList args c rest index
        match found.value with
        | some value => Sh.assign "OPTARG" value
        | none => Sh.unset "OPTARG"
        pure found
      | _ => pure ⟨'?', none, [], index⟩
    Sh.assign "OPTIND" (toString found.index)
    Sh.assignNamed name (String.singleton found.letter)
    let offset := (args[found.index - 2]?).map fun arg => arg.length - found.left.length
    Sh.modifyShell fun s =>
      { s with
        optionIndex := found.index
        optionOffset := if found.left.isEmpty then none else offset }
    return if letters.isNone then 1 else 0
  | _ => Sh.fail "Usage: getopts optstring var [arg...]"

/-! ### Lines -/

/-- A character of a line that was read, and whether a backslash stood before it. -/
structure LineChar where
  char : Char
  escaped : Bool := false

/-- How many bytes the next line takes, and its characters. A backslash protects the character
behind it, and joins the next line at the end of one. -/
def takeLine (raw : Bool) : Bytes → Nat → List LineChar → Nat × List LineChar × Bool
  | [], taken, found => (taken, found.reverse, false)
  | [b], taken, found =>
    let c := ByteText.ofByte b
    if c = '\n' then (taken + 1, found.reverse, true)
    else if c = '\x00' ∨ (c = '\\' ∧ ¬ raw) then (taken + 1, found.reverse, false)
    else (taken + 1, (⟨c, false⟩ :: found).reverse, false)
  | b :: b' :: rest, taken, found =>
    let c := ByteText.ofByte b
    if c = '\n' then (taken + 1, found.reverse, true)
    else if c = '\x00' then takeLine raw (b' :: rest) (taken + 1) found
    else if c = '\\' ∧ ¬ raw then
      let d := ByteText.ofByte b'
      takeLine raw rest (taken + 2)
        (if d = '\n' ∨ d = '\x00' then found else ⟨d, true⟩ :: found)
    else takeLine raw (b' :: rest) (taken + 1) (⟨c, false⟩ :: found)

/-- Whether a character separates fields. -/
def LineChar.separates (separators : List Char) (c : LineChar) : Bool :=
  !c.escaped && separators.contains c.char

/-- Whether a character is a blank that separates fields. -/
def LineChar.isGap (separators : List Char) (c : LineChar) : Bool :=
  c.separates separators && " \t\n".toList.contains c.char

/-- The text of characters. -/
def textOfLine (line : List LineChar) : String :=
  String.ofList (line.map (·.char))

/-- A line without the separator that it starts with: blanks, and one that is none. -/
def dropSeparator (separators : List Char) (line : List LineChar) : List LineChar :=
  match line.dropWhile (·.isGap separators) with
  | c :: rest =>
    if c.separates separators then rest.dropWhile (·.isGap separators) else c :: rest
  | [] => []

/-- What the last variable is given: a single field, or all that is left without the blanks at
its end. -/
def lastField (separators : List Char) (line : List LineChar) : String :=
  let field := line.takeWhile (!·.separates separators)
  let behind := (line.drop field.length).filter (!·.escaped)
  let marks := behind.filter (!·.isGap separators)
  if behind.all (·.separates separators) ∧ marks.length ≤ 1 then textOfLine field
  else textOfLine (line.reverse.dropWhile (·.isGap separators)).reverse

/-- The fields of a line for a number of variables. -/
def lineFields (separators : List Char) : Nat → List LineChar → List String
  | 0, _ => []
  | 1, line => [lastField separators line]
  | n + 1, line =>
    let field := line.takeWhile (!·.separates separators)
    textOfLine field ::
      lineFields separators n (dropSeparator separators (line.drop field.length))

/-- Gives variables the fields of a line. -/
def assignFields (names : List String) (line : List LineChar) : Sh Unit := do
  let separators ← Sh.separators
  let line := line.dropWhile (·.isGap separators)
  (names.zip (lineFields separators names.length line)).forM fun (name, field) =>
    Sh.assignNamed name field

/-- Reads a line of the input into variables. -/
def read (args : List String) : Sh Nat := do
  let (options, names) ← Sh.options ['r'] ['p'] args
  if names.isEmpty then Sh.fail "arg count"
  else
    let raw := options.any (·.1 == 'r')
    let (taken, line, complete) := takeLine raw (← Sh.unread 0) 0 []
    Sh.skipBytes 0 taken
    assignFields names line
    return if complete then 0 else 1

end Builtin

end TileFlow.Script
