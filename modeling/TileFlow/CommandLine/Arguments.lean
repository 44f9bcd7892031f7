import TileFlow.Compile.Options

/-!
# Arguments of the command line

Arguments are read from the first to the last. An option is given at most once; one that takes
a value finds it behind an equals sign or in the next argument, unless that looks like an
option itself. All arguments after `--` belong to the host compiler.

## Main definitions

* `Request`: what the command line asks for.
* `UsageError`: why it asks for nothing.
* `Arguments.parse`: the request of some arguments.
-/

namespace TileFlow.CommandLine

/-- What was given so far (`Args`). -/
structure Arguments where
  input : Option String := none
  installDir : Option String := none
  noCompile : Bool := false
  noLink : Bool := false
  noCompileHost : Bool := false
  profile : Bool := false
  json : Bool := false
  /-- The options that are taken over as they are. -/
  options : Options := { input := "" }
  deriving Inhabited

/-- What the command line asks for. -/
inductive Request where
  | help
  | version
  | compile (options : Options) (json profile : Bool)

/-- Why a command line asks for nothing. -/
inductive UsageError where
  | missingInput
  | unexpectedArgument (argument : String)
  | unexpectedValue (option : String)
  | missingValue (option : String)
  | invalidValue (option value : String)
  | repeated (option : String)
  deriving DecidableEq, Repr

/-- The wording of a cause. -/
def UsageError.message : UsageError → String
  | .missingInput => "the following required arguments were not provided:\n  <INPUT>"
  | .unexpectedArgument argument => s!"unexpected argument '{argument}' found"
  | .unexpectedValue option => s!"unexpected value for '--{option}' found; no more were expected"
  | .missingValue option => s!"a value is required for '--{option}' but none was supplied"
  | .invalidValue option value => s!"invalid value '{value}' for '--{option}'"
  | .repeated option => s!"the argument '--{option}' cannot be used multiple times"

/-- What an option does with the arguments. -/
inductive Effect where
  | help
  | version
  /-- No value. -/
  | flag (set : Arguments → Arguments)
  /-- Any text. -/
  | text (set : String → Arguments → Arguments)
  /-- A text that is not empty. -/
  | path (set : String → Arguments → Arguments)
  /-- A truth value, which is true if it is left out. -/
  | choice (set : Bool → Arguments → Arguments)

/-- An option. -/
structure OptionSpec where
  name : String
  letter : Option Char := none
  effect : Effect

/-- An effect on the options that are taken over as they are. -/
def onOptions {α : Type} (set : α → Options → Options) (value : α) (a : Arguments) : Arguments :=
  { a with options := set value a.options }

/-- A flag among the options that are taken over as they are. -/
def optionFlag (set : Options → Options) : Effect :=
  .flag fun a => { a with options := set a.options }

/-- All options (in `Args`). -/
def optionSpecs : List OptionSpec := [
  ⟨"help", some 'h', .help⟩,
  ⟨"version", some 'V', .version⟩,
  ⟨"tmpdir", none, .path (onOptions fun v o => { o with workDir := some v })⟩,
  ⟨"sysroot", none, .path (onOptions fun v o => { o with sysroot := some v })⟩,
  ⟨"peano", none, .path (onOptions fun v o => { o with peano := some v })⟩,
  ⟨"host-target", none, .text (onOptions fun v o => { o with hostTarget := v })⟩,
  ⟨"install-dir", none, .path fun v a => { a with installDir := some v }⟩,
  ⟨"verbose", some 'v', optionFlag fun o => { o with verbose := true }⟩,
  ⟨"dry-run", some 'n', optionFlag fun o => { o with dryRun := true }⟩,
  ⟨"compile", none, .choice (onOptions fun v o => { o with compile := v })⟩,
  ⟨"no-compile", none, .flag fun a => { a with noCompile := true }⟩,
  ⟨"link", none, .choice (onOptions fun v o => { o with link := v })⟩,
  ⟨"no-link", none, .flag fun a => { a with noLink := true }⟩,
  ⟨"compile-host", none, .choice (onOptions fun v o => { o with compileHost := v })⟩,
  ⟨"no-compile-host", none, .flag fun a => { a with noCompileHost := true }⟩,
  ⟨"unified", none, optionFlag fun o => { o with unified := true }⟩,
  ⟨"aie-generate-ipu", none, optionFlag fun o => { o with generateIpu := true }⟩,
  ⟨"aie-only-generate-ipu", none, optionFlag fun o => { o with onlyGenerateIpu := true }⟩,
  ⟨"aie-generate-xclbin", none, optionFlag fun o => { o with generateXclbin := true }⟩,
  ⟨"ipu-insts-name", none, .text (onOptions fun v o => { o with ipuInstsName := v })⟩,
  ⟨"xclbin-name", none, .text (onOptions fun v o => { o with xclbinName := v })⟩,
  ⟨"xclbin-kernel-name", none, .text (onOptions fun v o => { o with kernelName := v })⟩,
  ⟨"xclbin-instance-name", none, .text (onOptions fun v o => { o with instanceName := v })⟩,
  ⟨"xclbin-kernel-id", none, .text (onOptions fun v o => { o with kernelId := v })⟩,
  ⟨"profile", none, .flag fun a => { a with profile := true }⟩,
  ⟨"json", none, .flag fun a => { a with json := true }⟩]

/-- The request of complete arguments, for an installation that is used by default (`into_options`).
-/
def Arguments.finish (a : Arguments) (installation : String) (hostArgs : List String) :
    Except UsageError Request :=
  match a.input with
  | none => .error .missingInput
  | some input =>
    let o := a.options
    .ok (.compile { o with
      input
      hostArgs
      installDir := a.installDir.getD installation
      compile := o.compile && !a.noCompile
      link := o.link && !a.noLink
      compileHost := o.compileHost && !a.noCompileHost } a.json a.profile)

/-! ### Reading -/

/-- The shape of an argument. -/
inductive Shape where
  | long (name : String) (value : Option String)
  | short (letters : List Char)
  | plain

/-- The shape of an argument. A single dash is no option. -/
def shapeOf (argument : String) : Shape :=
  match argument.toList with
  | '-' :: '-' :: rest =>
    let name := rest.takeWhile (· != '=')
    let value := match rest.drop name.length with
      | _ :: value => some (String.ofList value)
      | [] => none
    .long (String.ofList name) value
  | '-' :: c :: rest => .short (c :: rest)
  | _ => .plain

/-- The next argument, if it can be a value. -/
def nextValue? : List String → Option String
  | argument :: _ =>
    match shapeOf argument with
    | .plain => some argument
    | _ => none
  | [] => none

/-- What reading has come to: the arguments so far, the options that were used, and the request
that was decided on, if one was. -/
structure Progress where
  arguments : Arguments := {}
  used : List String := []
  decided : Option Request := none

/-- The value of an option, and whether it was the next argument. -/
def valueOf (name : String) (attached : Option String) (rest : List String) :
    Except UsageError (String × Bool) :=
  match attached, nextValue? rest with
  | some value, _ => .ok (value, false)
  | none, some value => .ok (value, true)
  | none, none => .error (.missingValue name)

/-- The truth value that an option is given. -/
def choiceOf (name : String) (attached : Option String) (rest : List String) :
    Except UsageError (Bool × Bool) :=
  match attached.or (nextValue? rest) with
  | none => .ok (true, false)
  | some "true" => .ok (true, attached.isNone)
  | some "false" => .ok (false, attached.isNone)
  | some value => .error (.invalidValue name value)

/-- Reading goes on with an option's effect on the arguments. -/
def Progress.apply (p : Progress) (name : String) (set : Arguments → Arguments) :
    Except UsageError Progress :=
  if p.used.contains name then .error (.repeated name)
  else .ok { p with arguments := set p.arguments, used := name :: p.used }

/-- The effect of an option, and whether it took the next argument. -/
def Progress.option (p : Progress) (spec : OptionSpec) (attached : Option String)
    (rest : List String) : Except UsageError (Progress × Bool) := do
  match spec.effect with
  | .help =>
    if attached.isSome then throw (.unexpectedValue spec.name)
    return ({ p with decided := some .help }, false)
  | .version =>
    if attached.isSome then throw (.unexpectedValue spec.name)
    return ({ p with decided := some .version }, false)
  | .flag set =>
    if attached.isSome then throw (.unexpectedValue spec.name)
    return (← p.apply spec.name set, false)
  | .text set =>
    let (value, taken) ← valueOf spec.name attached rest
    return (← p.apply spec.name (set value), taken)
  | .path set =>
    let (value, taken) ← valueOf spec.name attached rest
    if value.isEmpty then throw (.missingValue spec.name)
    return (← p.apply spec.name (set value), taken)
  | .choice set =>
    let (value, taken) ← choiceOf spec.name attached rest
    return (← p.apply spec.name (set value), taken)

/-- The effect of letters behind one dash; none of them takes a value. -/
def Progress.letters (p : Progress) : List Char → Except UsageError Progress
  | [] => .ok p
  | c :: rest =>
    match p.decided, optionSpecs.find? (·.letter == some c) with
    | some _, _ => .ok p
    | none, none => .error (.unexpectedArgument (String.ofList ['-', c]))
    | none, some spec =>
      match p.option spec none [] with
      | .ok (p, _) => p.letters rest
      | .error e => .error e

/-- The effect of an argument that is no option. -/
def Progress.positional (p : Progress) (argument : String) : Except UsageError Progress :=
  if p.arguments.input.isSome then .error (.unexpectedArgument argument)
  else if argument.isEmpty then .error (.missingValue "INPUT")
  else .ok { p with arguments := { p.arguments with input := some argument } }

/-- The effect of an argument, and whether it took the next one. -/
def Progress.step (p : Progress) (argument : String) (rest : List String) :
    Except UsageError (Progress × Bool) :=
  match shapeOf argument with
  | .plain => (p.positional argument).map (·, false)
  | .short letters => (p.letters letters).map (·, false)
  | .long name attached =>
    match optionSpecs.find? (·.name == name) with
    | some spec => p.option spec attached rest
    | none => .error (.unexpectedArgument argument)

/-- The request of arguments after those that were read. The flag says that the next one was
taken already. -/
def Progress.read (installation : String) (p : Progress) (taken : Bool) :
    List String → Except UsageError Request
  | [] => p.arguments.finish installation []
  | argument :: rest =>
    if taken then Progress.read installation p false rest
    else if argument = "--" then p.arguments.finish installation rest
    else
      match p.step argument rest with
      | .error e => .error e
      | .ok (p, taken) =>
        match p.decided with
        | some request => .ok request
        | none => Progress.read installation p taken rest

/-- The request of some arguments (`main` and `into_options`). -/
def Arguments.parse (installation : String) (args : List String) : Except UsageError Request :=
  Progress.read installation {} false args

end TileFlow.CommandLine
