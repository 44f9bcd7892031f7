import TileFlow.Shell.Builtin.Condition
import TileFlow.Shell.Builtin.Print
import TileFlow.Shell.Builtin.Variables
import TileFlow.Shell.Process

/-!
# Running commands

A simple command is run in a fixed order: its words are expanded, its streams led where its
redirections say, its assignments made, the command shown if that is asked for, and then it is
looked up. It may be one of the shell's own commands, a function, or a program.

Commands hold commands, functions can call each other, and scripts can start scripts. All of this
goes through one function that runs a command and is given another one for what is inside.

## Main definitions

* `builtins`: the shell's own commands.
* `Sh.runShell`: what a shell does that was just started.
* `evaluateStep`: one layer of running a command.
* `evaluate`: running a command whose parts are nested at most to a depth.
-/

namespace TileFlow.Script

/-! ### The shell's own commands -/

/-- What one of the shell's own commands does. Some run other commands. -/
inductive Action where
  | plain (run : List String → Sh Nat)
  /-- Runs its arguments as a text of commands. -/
  | evaluate
  /-- Runs the commands of a file. -/
  | source
  /-- Puts a program in the place of the shell. -/
  | replace
  /-- Runs a command that is no function, or tells what a name stands for. -/
  | command
  /-- Tells what names stand for. -/
  | describe

/-- One of the shell's own commands. -/
structure OwnCommand where
  action : Action
  /-- Whether an error in it ends the script, and assignments before it stay. -/
  special : Bool := false
  /-- Whether its arguments are assignments. -/
  assigns : Bool := false

/-- Does nothing. -/
def Builtin.nothing (status : Nat) (_ : List String) : Sh Nat :=
  return status

/-- Names that are not known, where nothing can be made known. -/
def Builtin.unknownName (command : String) (defines : Bool) (args : List String) : Sh Nat := do
  let unknown := args.filter fun arg => !(defines && arg.toList.contains '=')
  unknown.forM fun name => Sh.writeError s!"{command}: {name} not found\n"
  return if unknown.isEmpty then 0 else 1

/-- The shell's own commands. -/
def builtins : List (String × OwnCommand) :=
  let plain (run : List String → Sh Nat) : OwnCommand := { action := .plain run }
  let special (run : List String → Sh Nat) : OwnCommand :=
    { action := .plain run, special := true }
  let declaring (run : List String → Sh Nat) : OwnCommand :=
    { action := .plain run, special := true, assigns := true }
  [(".", { action := .source, special := true }),
    (":", special (Builtin.nothing 0)),
    ("[", plain Builtin.bracket),
    ("alias", { plain (Builtin.unknownName "alias" true) with assigns := true }),
    ("bg", plain fun _ => Sh.fail "No current job"),
    ("break", special (Builtin.skipTurns .leaveLoop)),
    ("cd", plain Builtin.cd),
    ("chdir", plain Builtin.cd),
    ("command", { action := .command }),
    ("continue", special (Builtin.skipTurns .nextTurn)),
    ("echo", plain Builtin.echo),
    ("eval", { action := .evaluate, special := true }),
    ("exec", { action := .replace, special := true }),
    ("exit", special Builtin.exit),
    ("export", declaring Builtin.exportNames),
    ("false", plain (Builtin.nothing 1)),
    ("fg", plain fun _ => Sh.fail "No current job"),
    ("getopts", plain Builtin.getopts),
    ("hash", plain (Builtin.nothing 0)),
    ("jobs", plain (Builtin.nothing 0)),
    ("kill", plain Builtin.kill),
    ("local", declaring Builtin.makeLocal),
    ("printf", plain Builtin.printf),
    ("pwd", plain Builtin.pwd),
    ("read", plain Builtin.read),
    ("readonly", declaring Builtin.readonly),
    ("return", special Builtin.leave),
    ("set", special Builtin.set),
    ("shift", special Builtin.shift),
    ("test", plain Builtin.test),
    ("times", special fun _ => Sh.answer "0m0.000000s 0m0.000000s\n0m0.000000s 0m0.000000s\n"),
    ("trap", special Builtin.trap),
    ("true", plain (Builtin.nothing 0)),
    ("type", { action := .describe }),
    ("ulimit", plain fun _ => Sh.answer "unlimited\n"),
    ("umask", plain Builtin.umask),
    ("unalias", plain (Builtin.unknownName "unalias" false)),
    ("unset", special Builtin.unset),
    ("wait", plain Builtin.wait)]

/-- What the name of a command stands for, before programs are looked for. -/
inductive Meaning where
  | own (command : OwnCommand)
  | function (line : Nat) (body : Command)
  | program

namespace Sh

/-- What the name of a command stands for. -/
def meaning (name : String) (functions : Bool := true) : Sh Meaning := do
  let defined := (← shell).functions.lookup name
  match if functions then defined else none with
  | some (line, body) => return .function line body
  | none =>
    match builtins.lookup name with
    | some command => return .own command
    | none => return .program

/-- The search path. -/
def searchPath : Sh String := do
  return (← value? "PATH").getD ""

/-- The search path that is used where the script's own is not. -/
def standardPath : String := "/usr/local/sbin:/usr/local/bin:/usr/sbin:/usr/bin:/sbin:/bin"

/-- How it is told that a program cannot be started. -/
def programComplaint : SystemError → String
  | .notFound | .notADirectory => "not found"
  | e => e.description

/-- The paths that a name may stand for, from the first one on that leads to an executable file,
or why there is none. -/
def findPaths (files : FileTree) (directory : Location) (name : String) :
    SystemError → List String → Except SystemError (List String)
  | last, [] => .error last
  | last, path :: rest =>
    match files.locate directory (ByteText.decode path) with
    | .ok (_, .file _ true) => .ok (path :: rest)
    | .ok _ => findPaths files directory name .permissionDenied rest
    | .error e => findPaths files directory name (if isAbsent e then last else e) rest

/-- The paths that a name may stand for. -/
def pathsOf (name searchPath : String) : Sh (Except SystemError (List String)) := do
  let paths := (searchEntries searchPath).map (inEntry · name)
  return findPaths (← world).files (← shell).directory name .notFound paths

/-! ### Telling what names stand for -/

/-- Tells what a name stands for, in words or by what can be written in its place. -/
def describe (inWords : Bool) (path name : String) : Sh Nat := do
  let say (words short : String) : Sh Nat :=
    answer ((if inWords then name ++ words else short) ++ "\n")
  if reservedWords.contains name then say " is a shell keyword" name
  else
    match ← meaning name with
    | .function .. => say " is a shell function" name
    | .own command =>
      say (if command.special then " is a special shell builtin" else " is a shell builtin") name
    | .program =>
      let found ← if name.toList.contains '/' then
          pure (if (← world).files.hasEntry (← shell).directory (ByteText.decode name)
            then .ok [name] else .error .notFound)
        else pathsOf name path
      match found with
      | .ok (path :: _) => say s!" is {path}" path
      | _ =>
        let _ ← if inWords then writeOutput s!"{name}: not found\n" else pure true
        return 127

/-- Tells what names stand for. -/
def describeAll (inWords : Bool) (path : String) (names : List String) : Sh Nat := do
  let codes ← names.mapM (describe inWords path)
  return codes.foldl (· ||| ·) 0

/-! ### Starting shells -/

/-- What a shell that was just started does: the text of its commands, and whether it is read
from a file. -/
structure Task where
  text : String
  fromFile : Bool := true

/-- What the options of a shell that was just started ask for besides those that can be set. -/
structure StartOptions where
  hasText : Bool := false
  fromInput : Bool := false

/-- Reads the options of a shell that was just started, and gives what follows them. -/
def startOptions : Nat → StartOptions → List String → Sh (StartOptions × List String)
  | 0, found, args => return (found, args)
  | _, found, [] => return (found, [])
  | n + 1, found, arg :: rest => do
    let read (on : Bool) (letters : List Char) : Sh (StartOptions × List String) := do
      let own := letters.filter fun c => !(['c', 'l', 's'].contains c)
      let rest ← Builtin.turnLetters on own rest
      startOptions n
        { hasText := found.hasText || letters.contains 'c'
          fromInput := found.fromInput || letters.contains 's' } rest
    match arg.toList with
    | ['-'] | ['-', '-'] => return (found, rest)
    | '-' :: letters => read true letters
    | '+' :: letters => read false letters
    | _ => return (found, arg :: rest)

/-- The text behind a path, for a script that is in it. -/
def scriptText (path : String) : Sh String := do
  let c ← openForReading path
  return ByteText.ofBytes ((← world).bytesOf c)

/-- What a shell that was just started does. -/
def startTask (args : List String) : Sh Task := do
  let (found, args) ← startOptions args.length {} args
  let named (args : List String) : Sh Unit := do
    match args with
    | [] => pure ()
    | name :: args => modifyShell fun s => { s with name, args }
  if found.hasText then
    match args with
    | [] => fail "-c requires an argument"
    | text :: rest =>
      named rest
      return { text, fromFile := false }
  else
    match args with
    | path :: _ =>
      if found.fromInput then modifyShell fun s => { s with args }
      else
        let text ← scriptText path
        named args
        return { text }
    | [] => pure ()
    let text ← unread 0
    skipBytes 0 text.length
    return { text := ByteText.ofBytes text }

/-- The variables that a shell has from the start. -/
def startVariables (environment : List (String × String)) (directory : Location) :
    List (String × Variable) :=
  let inherited := environment.filterMap fun (name, value) =>
    if isName name.toList then some (name, ({ value := some value, exported := true } : Variable))
    else none
  let own (name value : String) (exported : Bool := false) : String × Variable :=
    (name, { value := some value, exported })
  let given := [own "IFS" " \t\n", own "OPTIND" "1", own "PPID" "1",
    own "PWD" (ByteText.encode (Location.path directory)) true]
  let byDefault := [own "PATH" standardPath, own "PS1" "# ", own "PS2" "> ", own "PS4" "+ "]
  let others := inherited.filter fun (name, _) => (given.lookup name).isNone
  given ++ others ++ byDefault.filter fun (name, _) => (others.lookup name).isNone

/-- A shell in the place of another, for its name and the variables that it is given. -/
def Shell.restart (s : Shell) (name : String) (environment : List (String × String)) : Shell where
  process := s.process
  mainProcess := s.process
  name := name
  bindings := startVariables environment s.directory
  directory := s.directory
  streams := s.streams
  ignored := s.ignored ++ (s.traps.filter (·.2 == "")).map (·.1)
  mask := s.mask

section

variable (self : Evaluator)

/-- Runs a shell that was just started with some arguments, its own name first. -/
def runShell (args : List String) : Sh Unit := do
  let task ← startTask (args.drop 1)
  let _ ← runText self false task.fromFile task.text

/-- Puts a shell in the place of this one, until the process ends. -/
def become {α : Type} (args : List String) : Sh α := do
  let given ← environment
  modifyShell fun s => Shell.restart s (args.head?.getD "") given
  match ← finish self (runShell self args) with
  | .killed signal => throw (.killed signal)
  | .exited code =>
    modifyShell fun s => { s with status := code, traps := [], pending := [] }
    throw .ended

/-- Puts the first program that can be started into the place of the shell. -/
def becomeFirst {α : Type} (args : List String) (last : SystemError) : List String → Sh α
  | [] => do
    setStatus (match last with
      | .notFound | .notADirectory | .nameTooLong | .tooManyLinks => 127
      | _ => 126)
    let name := args.head?.getD ""
    warn s!"{name}: {programComplaint last}"
    throw .ended
  | path :: rest => do
    match shellArguments? (← world).files (← shell).directory path args with
    | .ok args => become self args
    | .error e => becomeFirst args (if isAbsent e then last else e) rest

/-- Puts a program in the place of the shell. -/
def becomeProgram {α : Type} (args : List String) (searchPath : String) : Sh α := do
  let name := args.head?.getD ""
  if name.toList.contains '/' then becomeFirst self args .notFound [name]
  else becomeFirst self args .notFound ((searchEntries searchPath).map (inEntry · name))

/-- Starts a program and waits for its end. -/
def runProgram (args : List String) (searchPath : String) : Sh Unit := do
  let name := args.head?.getD ""
  let start (paths : List String) : Sh Unit := do
    setStatus (← copyStatus self (becomeFirst self args .notFound paths))
  if name.toList.contains '/' then start [name]
  else
    match ← pathsOf name searchPath with
    | .ok paths => start paths
    | .error e =>
      warn s!"{name}: {programComplaint e}"
      setStatus 127

/-! ### Calling commands -/

/-- The path of a file of commands. -/
def sourcePath (name : String) : Sh String := do
  if name.toList.contains '/' then return name
  else
    let paths := (searchEntries (← searchPath)).map (inEntry · name)
    let files := (← world).files
    let directory := (← shell).directory
    let isThere (path : String) : Bool := match files.locate directory (ByteText.decode path) with
      | .ok (_, .file ..) => true
      | _ => false
    match paths.find? isThere with
    | some path => return path
    | none => fail s!"{name}: not found"

/-- Runs the commands of a file. -/
def runSource (args : List String) : Sh Nat := do
  match ← operands args with
  | [] => return 0
  | name :: _ =>
    let path ← sourcePath name
    let text ← scriptText path
    modifyShell fun s => { s with commandName := some path }
    let status ← runText self false true text
    modifyShell fun s => match s.skip with
      | .leaveFunction _ => { s with skip := .none }
      | _ => s
    return status

/-- The effect of one of the shell's own commands. -/
def act (action : Action) (tested : Bool) (args : List String) : Sh Nat := do
  match action with
  | .plain run => run args
  | .evaluate => if args.isEmpty then return 0 else runText self tested false (" ".intercalate args)
  | .source => runSource self args
  | .replace =>
    match args with
    | [] => return 0
    | _ => becomeProgram self args (← searchPath)
  | .command =>
    let (options, names) ← options ['p', 'v', 'V'] [] args
    let own ← searchPath
    let path := if options.any (·.1 == 'p') then standardPath else own
    match options.reverse.find? (·.1 != 'p'), names with
    | some (c, _), name :: _ => describe (c = 'V') path name
    | _, _ => return 0
  | .describe => describeAll true (← searchPath) args

/-- Runs one of the shell's own commands. An error in it is passed on if it ends the script. -/
def callOwn (command : OwnCommand) (endsScript tested : Bool) (name : String)
    (args : List String) : Sh Unit := do
  let before ← shell
  modifyShell fun s => { s with commandName := some name }
  let result ← attempt do setStatus (← act self command.action tested args)
  modifyShell fun s => { s with commandName := before.commandName }
  match result with
  | .error .error =>
    if endsScript then throw .error
    else modifyShell fun s =>
      { s with
        args := before.args
        functionLine := before.functionLine
        functionDepth := before.functionDepth
        loopDepth := before.loopDepth
        streams := before.streams }
  | _ => resume result

/-- Calls a function. -/
def callFunction (line : Nat) (body : Command) (tested : Bool) (args : List String) :
    Sh Unit := do
  let before ← shell
  modifyShell fun s =>
    { s with
      args
      optionIndex := 1
      optionOffset := none
      functionLine := line
      functionDepth := s.functionDepth + 1
      loopDepth := 0 }
  andFinally (self tested body) do
    modifyShell fun s =>
      { s with
        args := before.args
        optionIndex := before.optionIndex
        optionOffset := before.optionOffset
        functionLine := before.functionLine
        functionDepth := before.functionDepth
        loopDepth := before.loopDepth
        skip := match s.skip with
          | .leaveFunction _ => .none
          | skip => skip }

/-! ### Simple commands -/

/-- The fields of the first word that has some, and the words behind it. -/
def expandFirst : List Word → Sh (List String × List Word)
  | [] => return ([], [])
  | w :: rest => do
    match ← expandFields (commandOutput self) w with
    | [] => expandFirst rest
    | fields => return (fields, rest)

/-- The fields of words, of which those that assign may be values. -/
def expandRest (assigns : Bool) : List Word → Sh (List String)
  | [] => return []
  | w :: rest => do
    let fields ← match if assigns then Word.assignment? w else none with
      | some (name, value) => do
        pure [name ++ "=" ++ (← expandValue (commandOutput self) value)]
      | none => expandFields (commandOutput self) w
    return fields ++ (← expandRest assigns rest)

/-- A command whose words are expanded: what it is called with, and what it is. -/
structure Call where
  fields : List String := []
  meaning : Meaning := .program
  searchPath : Option String := none
  /-- Whether an error in the command ends the script; none unless it is one of the shell's
  own. -/
  special : Option Bool := none

/-- What `command` with some arguments calls: the name after its options, unless it is asked to
tell of names. -/
def afterCommand : List String → Option (List String × Bool)
  | [] => none
  | arg :: rest =>
    match arg.toList with
    | ['-', '-'] => if rest.isEmpty then none else some (rest, false)
    | '-' :: c :: letters =>
      if (c :: letters).all (· == 'p') then
        (afterCommand rest).map fun (rest, _) => (rest, true)
      else none
    | _ => some (arg :: rest, false)

/-- The call that fields stand for, in at most a number of steps. -/
def callOf : Nat → Call → Sh Call
  | 0, c => return c
  | n + 1, c => do
    match c.fields, c.meaning with
    | _ :: args, .own ⟨.command, _, _⟩ =>
      match afterCommand args with
      | none => return c
      | some (fields, standard) =>
        let next ← meaning (fields.head?.getD "") false
        callOf n
          { fields
            meaning := next
            searchPath := if standard then some standardPath else c.searchPath
            special := c.special }
    | _, _ => return c

/-- The call that words stand for. -/
def expandCall (words : List Word) : Sh Call := do
  let (head, rest) ← expandFirst self words
  match head with
  | [] => return {}
  | name :: _ =>
    let first ← meaning name
    let assigns := match first with
      | .own command => command.assigns
      | _ => false
    let fields := head ++ (← expandRest self assigns rest)
    let special := match first with
      | .own command => some command.special
      | _ => none
    callOf fields.length { fields, meaning := first, special }

/-- Whether a call puts a program in the place of the shell, or only leads its streams
elsewhere. -/
def Call.replaces (c : Call) : Bool :=
  match c.meaning with
  | .own ⟨.replace, _, _⟩ => true
  | _ => false

/-- Makes assignments, for one command only if asked for, and gives their texts. -/
def makeAssignments (forCommand exported : Bool) :
    List (String × Word) → Sh (List String)
  | [] => return []
  | (name, w) :: rest => do
    let value ← expandValue (commandOutput self) w
    if forCommand then makeLocal name
    assign name value (forCommand || exported)
    return (name ++ "=" ++ value) :: (← makeAssignments forCommand exported rest)

/-- What is shown before a command that is shown. -/
def traceMark : Sh String := do
  let source := (← value? "PS4").getD ""
  let reader : Reader := { rest := source.toList, documents := (← shell).documents }
  match ((Reader.readPart (source.length + 2)) (.pieces .document)).run reader with
  | .ok (w, _) => expandDocument (commandOutput self) w
  | .error e => failSyntax e

/-- Shows a command. -/
def trace (channel : Option ChannelId) (texts : List String) : Sh Unit := do
  let s ← shell
  if s.options.trace ∧ ¬ s.tracing then
    modifyShell fun s => { s with tracing := true }
    let mark ← traceMark self
    modifyShell fun s => { s with tracing := false }
    let _ ← writeTo channel (mark ++ " ".intercalate texts ++ "\n")

/-- Calls what words stand for. -/
def call (tested : Bool) (c : Call) : Sh Unit := do
  match c.fields, c.meaning with
  | [], _ => setStatus (← shell).outputStatus
  | name :: args, .own command => callOwn self command (c.special = some true) tested name args
  | _ :: args, .function line body => callFunction self line body tested args
  | fields, .program => runProgram self fields (c.searchPath.getD (← searchPath))

/-- Runs a simple command. -/
def runSimple (tested : Bool) (line : Nat) (assignments : List (String × Word))
    (words : List Word) (redirections : List (Redirection Word)) : Sh Unit := do
  modifyShell fun s => { s with line, outputStatus := 0 }
  let c ← expandCall self words
  let forCommand := !c.fields.isEmpty && c.special != some true
  let before ← shell
  if forCommand then openScope
  let complaints ← channel? 2
  let redirections ← expandRedirections (commandOutput self) redirections
  if ← redirectSafely redirections then
    let restore := if c.replaces then pure () else restoreStreams redirections before.streams
    andFinally (do
      let texts ← makeAssignments self forCommand (c.replaces && 1 < c.fields.length) assignments
      trace self complaints (texts ++ c.fields)
      call self tested c) restore
  else
    restoreStreams redirections before.streams
    if c.special = some true then throw .error
  closeScopes before.saved.length

/-! ### Compound commands -/

/-- Whether a turn of a loop was the last one, after its commands were run. -/
def leavesLoop : Sh Bool := do
  let s ← shell
  match s.skip with
  | .none => return false
  | .leaveFunction _ => return true
  | skip =>
    if s.skipCount ≤ 1 then
      modifyShell fun s => { s with skip := .none, skipCount := s.skipCount - 1 }
      return skip = .leaveLoop
    else
      modifyShell fun s => { s with skipCount := s.skipCount - 1 }
      return true

/-- Runs commands as those of a loop. -/
def inLoop {α : Type} (x : Sh α) : Sh α := do
  modifyShell fun s => { s with loopDepth := s.loopDepth + 1 }
  let result ← x
  modifyShell fun s => { s with loopDepth := s.loopDepth - 1 }
  return result

/-- Runs a body as long as a condition has an outcome. -/
def runLoop (tested outcome : Bool) (condition body : Command) : Sh Unit := do
  let last ← inLoop <| repeatUpTo (throw .exhausted) (fun last => do
    self true condition
    let met ← status
    let skipped := (← shell).skip
    if skipped ≠ .none then
      let last := if skipped = .leaveFunction true then met else last
      return if ← leavesLoop then .done last else .again last
    else if (met == 0) ≠ outcome then return .done last
    else
      self tested body
      let last ← status
      return if ← leavesLoop then .done last else .again last) turnLimit 0
  setStatus last

/-- Runs a body for each item. -/
def runForEach (tested : Bool) (name : String) (body : Command) : Nat → List String → Sh Nat
  | last, [] => return last
  | _, item :: rest => do
    assign name item
    self tested body
    let last ← status
    if ← leavesLoop then return last else runForEach tested name body last rest

/-- Whether a text fits one of some patterns. -/
def fitsAny (text : String) : List Word → Sh Bool
  | [] => return false
  | w :: rest => do
    let pattern ← expandPattern (commandOutput self) w
    if Pattern.fits pattern text.toList then return true else fitsAny text rest

/-- Runs the commands of the first arm that a text fits. -/
def runArms (tested : Bool) (text : String) : List (List Word × Command) → Sh Unit
  | [] => setStatus 0
  | (patterns, body) :: rest => do
    if ← fitsAny self text patterns then
      match body with
      | .nothing => setStatus 0
      | body => self tested body
    else runArms tested text rest

/-- Runs commands side by side, each with the output of the one before it as its input. A
command that goes on forever is ended when nothing reads from it any more. -/
def runStages (tested : Bool) : Option ChannelId → List Command → Sh Unit
  | _, [] => receiveAll
  | input, stage :: rest => do
    let output ← if rest.isEmpty then pure none else
      some <$> openChannel { endpoint := .buffer [], readable := true, writable := true }
    let result ← attempt <| inCopy self do
      (match input with
        | some id => setStream 0 (some id)
        | none => pure ())
      (match output with
        | some id => setStream 1 (some id)
        | none => pure ())
      self tested stage
    match result, output with
    | .error .exhausted, some _ => runStages tested output rest
    | _, _ =>
      setStatus (← tell (← resume result))
      runStages tested output rest

/-- Runs a command in the background. It comes to its end before anything else is run. -/
def runBackground (command : Command) : Sh Unit := do
  let process := (← world).nextProcess
  let input ← openChannel { endpoint := .device .null, readable := true }
  let outcome ← inCopy self do
    setStream 0 (some input)
    self false command
  let code := match outcome with
    | .exited code => code
    | .killed signal => 128 + signal
  modifyShell fun s =>
    { s with
      background := some process
      finished := (process, code) :: s.finished
      status := 0 }

/-- Runs a command with its streams led elsewhere. -/
def runRedirected (tested : Bool) (line : Nat) (command : Command)
    (redirections : List (Redirection Word)) : Sh Unit := do
  setLine line
  let redirections ← expandRedirections (commandOutput self) redirections
  let before := (← shell).streams
  if ← redirectSafely redirections then
    andFinally (self tested command) (restoreStreams redirections before)
  else restoreStreams redirections before

/-- Runs a command in a copy of the shell. -/
def runNested (tested : Bool) (line : Nat) (command : Command)
    (redirections : List (Redirection Word)) : Sh Unit := do
  setLine line
  let redirections ← expandRedirections (commandOutput self) redirections
  setStatus (← copyStatus self do
    redirect redirections
    self tested command)

/-- Runs a command, whatever it is. -/
def runCommand (tested : Bool) : Command → Sh Unit
  | .nothing => return ()
  | .simple line assignments words redirections =>
    runSimple self tested line assignments words redirections
  | .pipeline stages => runStages self tested none stages
  | .seq first second => do
    self tested first
    if (← shell).skip = .none then self tested second
  | .both first second => do
    self true first
    let s ← shell
    if s.status = 0 ∧ s.skip = .none then self tested second
  | .either first second => do
    self true first
    let s ← shell
    if s.status ≠ 0 ∧ s.skip = .none then self tested second
  | .negate command => do
    self true command
    let s ← shell
    if s.skip = .none then setStatus (if s.status = 0 then 1 else 0)
  | .branch condition yes no => do
    self true condition
    let s ← shell
    if s.skip ≠ .none then return ()
    else
      if s.status = 0 then self tested yes
      else
        match no with
        | .nothing => setStatus 0
        | no => self tested no
  | .loop outcome condition body => runLoop self tested outcome condition body
  | .forEach line name items body => do
    setLine line
    let items ← expandRest self false items
    setStatus (← inLoop (runForEach self tested name body 0 items))
  | .select line subject arms => do
    setLine line
    runArms self tested (← expandText (commandOutput self) subject) arms
  | .define line name body => modifyShell fun s =>
    { s with
      functions := (name, line, body) :: s.functions.filter (·.1 != name)
      status := 0 }
  | .nested line command redirections => runNested self tested line command redirections
  | .background _ command => runBackground self command
  | .redirected line command redirections =>
    runRedirected self tested line command redirections

end

end Sh

/-! ### Evaluation -/

/-- Whether the shell can be told to end where a command fails. -/
def Command.endsOnFailure : Command → Bool
  | .simple .. | .pipeline _ | .nested .. | .background .. => true
  | _ => false

/-- One layer of running a command, for a function that runs the commands inside of it. -/
def evaluateStep (self : Evaluator) : Evaluator := fun tested command => do
  if (← Sh.shell).options.noExec then return ()
  else
    Sh.runTraps self
    Sh.runCommand self tested command
    Sh.runTraps self
    let s ← Sh.shell
    if s.options.exitOnError ∧ command.endsOnFailure ∧ ¬ tested ∧ s.status ≠ 0 then
      throw .ended

/-- Runs a command whose parts, with the functions and the scripts that it calls, are nested at
most to a depth. -/
def evaluate : Nat → Evaluator
  | 0 => fun _ _ => throw .exhausted
  | depth + 1 => fun tested command => evaluateStep (evaluate depth) tested command

end TileFlow.Script
