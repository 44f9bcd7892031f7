import TileFlow.Shell.Command
import TileFlow.Shell.Program

/-!
# The state of a running script

A shell is one process among others. What all of them share is the world: the files and the
channels that are open. A shell of its own has variables, arguments, functions, options, a
directory and the streams that lead to channels.

What a shell does may end it at any point. What it has done by then stays done. A signal may end
it too: it is known by a number and a name, and has a wording for the process that it ended.

## Main definitions

* `Signal.all`, `Signal.name`, `Signal.ofText?`: the signals, and how they are called.
* `Signal.isHarmless`: whether a signal is passed over unless something else is asked for.
* `Channel`, `World`: what can be read from and written to.
* `Variable`, `Options`, `Shell`: the state of one process.
* `Interrupt`, `Sh`: actions of a shell, and how they can be cut short.
-/

namespace TileFlow.Script

/-! ### Signals -/

/-- The number of a signal. -/
abbrev Signal := Nat

namespace Signal

/-- The number that stands for the end of a process in the place of a signal. -/
def atEnd : Signal := 0

/-- The signal that asks a process to end. -/
def terminate : Signal := 15

/-- The signal for writing to what nobody reads. -/
def brokenPipe : Signal := 13

/-- The signal from the keyboard. -/
def interrupt : Signal := 2

/-- The signals with a meaning, from the first one on, by name and wording. -/
def named : List (String × String) :=
  [("HUP", "Hangup"), ("INT", "Interrupt"), ("QUIT", "Quit"), ("ILL", "Illegal instruction"),
    ("TRAP", "Trace/breakpoint trap"), ("ABRT", "Aborted"), ("BUS", "Bus error"),
    ("FPE", "Floating point exception"), ("KILL", "Killed"), ("USR1", "User defined signal 1"),
    ("SEGV", "Segmentation fault"), ("USR2", "User defined signal 2"), ("PIPE", "Broken pipe"),
    ("ALRM", "Alarm clock"), ("TERM", "Terminated"), ("16", "Stack fault"),
    ("CHLD", "Child exited"), ("CONT", "Continued"), ("STOP", "Stopped (signal)"),
    ("TSTP", "Stopped"), ("TTIN", "Stopped (tty input)"), ("TTOU", "Stopped (tty output)"),
    ("URG", "Urgent I/O condition"), ("XCPU", "CPU time limit exceeded"),
    ("XFSZ", "File size limit exceeded"), ("VTALRM", "Virtual timer expired"),
    ("PROF", "Profiling timer expired"), ("WINCH", "Window changed"), ("IO", "I/O possible"),
    ("PWR", "Power failure"), ("SYS", "Bad system call"), ("32", "Unknown signal 32"),
    ("33", "Unknown signal 33")]

/-- The first and the last signal without a meaning of its own. -/
def free : Signal × Signal := (34, 64)

/-- All signals. -/
def all : List Signal :=
  (List.range free.2).map (· + 1)

/-- The name of a signal. -/
def name (s : Signal) : String :=
  if s = atEnd then "EXIT"
  else
    match named[s - 1]? with
    | some (name, _) => name
    | none =>
      if s = free.1 then "RTMIN"
      else if s = free.2 then "RTMAX"
      else if s < 50 then s!"RTMIN+{s - free.1}"
      else s!"RTMAX-{free.2 - s}"

/-- The wording for a process that a signal ended. -/
def description (s : Signal) : String :=
  match named[s - 1]? with
  | some (_, wording) => wording
  | none => s!"Real-time signal {s - free.1}"

/-- The signal that a text names, by its number or by its name, in capitals or not. -/
def ofText? (text : String) : Option Signal :=
  let digits := text.toList
  if digits.all Char.isDigit ∧ ¬ digits.isEmpty then
    text.toNat?.bind fun n => if n ≤ free.2 then some n else none
  else (atEnd :: all).find? fun s => (name s).toUpper == text.toUpper

/-- Whether a signal is passed over by a process that has asked for nothing else. -/
def isHarmless (s : Signal) : Bool :=
  ["CHLD", "CONT", "STOP", "TSTP", "TTIN", "TTOU", "URG", "WINCH"].contains (name s)

/-- Whether a process cannot ask for anything else than what a signal does. -/
def isForced (s : Signal) : Bool :=
  ["KILL", "STOP"].contains (name s)

/-- Whether a shell tells that a signal ended a process. -/
def isTold (s : Signal) : Bool :=
  s != interrupt && s != brokenPipe

end Signal

/-! ### Channels -/

/-- What a channel leads to. -/
inductive Endpoint where
  | device (d : Device)
  | file (id : FileId)
  | directory
  /-- What was written and is kept until it is read, the last piece first. -/
  | buffer (pieces : List Bytes)
  deriving DecidableEq

/-- Something that was opened: where reading and writing have come to is part of it, so that all
who share it go on where the last one stopped. -/
structure Channel where
  endpoint : Endpoint
  offset : Nat := 0
  /-- Whether what is written goes to the end, wherever that is. -/
  appends : Bool := false
  readable : Bool := false
  writable : Bool := false
  deriving DecidableEq

/-- The identity of a channel: how many were opened before it. -/
abbrev ChannelId := Nat

/-- What all processes share. -/
structure World where
  files : FileTree
  channels : Array Channel := #[]
  /-- The number of the process that is started next. -/
  nextProcess : Nat := 4096
  /-- The processes that have not ended. -/
  running : List Nat := []
  /-- The signals that processes were sent and have not met yet. -/
  signals : List (Nat × Signal) := []

namespace World

/-- The world with one more channel. -/
def «open» (w : World) (c : Channel) : ChannelId × World :=
  (w.channels.size, { w with channels := w.channels.push c })

/-- The bytes behind a channel. -/
def bytesOf (w : World) (c : Channel) : Bytes :=
  match c.endpoint with
  | .file id => w.files.contentsOf id
  | .buffer pieces => pieces.reverse.flatten
  | .device _ | .directory => []

/-- The bytes that can still be read from a channel. -/
def unreadOf (w : World) (id : ChannelId) : Bytes :=
  match w.channels[id]? with
  | some c => if c.readable then (w.bytesOf c).drop c.offset else []
  | none => []

/-- The world in which some bytes of a channel were read. -/
def skip (w : World) (id : ChannelId) (count : Nat) : World :=
  { w with channels := w.channels.modify id fun c => { c with offset := c.offset + count } }

/-- The world in which bytes were written to a channel. -/
def write (w : World) (id : ChannelId) (bytes : Bytes) : Except SystemError World :=
  match w.channels[id]? with
  | none => .error .badDescriptor
  | some c =>
    if ¬ c.writable then .error .badDescriptor
    else
      match c.endpoint with
      | .device d => (w.files.writeOut (.device d) 0 bytes).map fun _ => w
      | .directory => .error .isADirectory
      | .buffer pieces =>
        .ok { w with channels := w.channels.modify id fun c =>
          { c with endpoint := .buffer (bytes :: pieces) } }
      | .file file =>
        let offset := if c.appends then (w.files.contentsOf file).length else c.offset
        .ok { w with
          files := w.files.writeAt file offset bytes
          channels := w.channels.modify id fun c => { c with offset := offset + bytes.length } }

end World

/-! ### Shells -/

/-- A variable, which may be known without having a value. -/
structure Variable where
  value : Option String := none
  exported : Bool := false
  readOnly : Bool := false
  deriving DecidableEq

/-- The options of a shell. -/
structure Options where
  /-- Ends at the first command that fails. -/
  exitOnError : Bool := false
  noGlob : Bool := false
  noExec : Bool := false
  trace : Bool := false
  verbose : Bool := false
  noClobber : Bool := false
  exportAll : Bool := false
  /-- Ends at the first parameter that is not set. -/
  refuseUnset : Bool := false
  deriving DecidableEq

/-- What the commands up to the end of a loop or function are passed over for. -/
inductive Skip where
  | none
  | leaveLoop
  | nextTurn
  /-- The end of a function, whose exit code was given or is that of the last command. -/
  | leaveFunction (given : Bool)
  deriving DecidableEq

/-- A shell. -/
structure Shell where
  process : Nat
  /-- The number that a shell and its copies call their own. -/
  mainProcess : Nat
  name : String
  args : List String := []
  bindings : List (String × Variable) := []
  /-- The variables that are put back at the end of each function or command that has variables
  of its own, with what they were. -/
  saved : List (List (String × Option Variable)) := []
  functions : List (String × Nat × Command) := []
  options : Options := {}
  directory : Location
  streams : List (Nat × ChannelId) := []
  /-- The exit code of the last command. -/
  status : Nat := 0
  /-- The line that complaints name. -/
  line : Nat := 0
  /-- The first line of the function that runs, or zero. -/
  functionLine : Nat := 0
  /-- The command of the shell that complaints name. -/
  commandName : Option String := none
  skip : Skip := .none
  /-- How many loops are still to be left. -/
  skipCount : Nat := 0
  loopDepth : Nat := 0
  functionDepth : Nat := 0
  /-- What is done on a signal, or at the end. -/
  traps : List (Signal × String) := []
  /-- The signals that were passed over before the shell started. -/
  ignored : List Signal := []
  /-- Signals that came and whose commands are still to be run. -/
  pending : List Signal := []
  /-- The exit code from before the commands that were run on a signal or at the end. -/
  savedStatus : Option Nat := none
  /-- The exit code of the last commands whose output was part of a word. -/
  outputStatus : Nat := 0
  /-- The texts that redirections refer to. -/
  documents : Array Word := #[]
  /-- The last process that ran in the background. -/
  background : Option Nat := none
  /-- The codes of the processes in the background that were not asked for yet. -/
  finished : List (Nat × Nat) := []
  /-- The argument whose options are looked at next, counted from one. -/
  optionIndex : Nat := 1
  /-- How much of the argument before it was looked at, if there is something left. -/
  optionOffset : Option Nat := none
  /-- The rights that new files are not given. -/
  mask : Nat := 18
  /-- Whether the trace mark is being expanded, which is not traced itself. -/
  tracing : Bool := false

/-- How the actions of a shell are cut short. -/
inductive Interrupt where
  /-- The process ends because the script says so. -/
  | exit
  /-- The process ends with the exit code that it has. -/
  | ended
  /-- The process ends because of an error. -/
  | error
  /-- A signal ends the process. -/
  | killed (signal : Signal)
  /-- The number of steps is used up. -/
  | exhausted
  deriving DecidableEq

/-- A shell in its world. -/
structure Machine where
  world : World
  shell : Shell

/-- Actions of a shell. -/
abbrev Sh := ExceptT Interrupt (StateM Machine)

namespace Sh

/-- The shell at this moment. -/
def shell : Sh Shell := do
  return (← get).shell

/-- The world at this moment. -/
def world : Sh World := do
  return (← get).world

/-- Changes the shell. -/
def modifyShell (f : Shell → Shell) : Sh Unit :=
  modify fun m => { m with shell := f m.shell }

/-- Changes the world. -/
def modifyWorld (f : World → World) : Sh Unit :=
  modify fun m => { m with world := f m.world }

/-- Runs an action, with the interrupt that may have cut it short as a value. -/
def attempt {α : Type} (x : Sh α) : Sh (Except Interrupt α) := do
  let (result, m) := Id.run (StateT.run (ExceptT.run x) (← get))
  set m
  return result

/-! ### Writing and reading -/

/-- The channel that a stream leads to. -/
def channel? (stream : Nat) : Sh (Option ChannelId) := do
  return (← shell).streams.lookup stream

/-- Writes a text to a channel, and says whether that was possible. -/
def writeTo (channel : Option ChannelId) (text : String) : Sh Bool := do
  match channel with
  | none => return text.isEmpty
  | some id =>
    if text.isEmpty then return true
    else
      match (← world).write id (ByteText.toBytes text) with
      | .ok w =>
        modifyWorld fun _ => w
        return true
      | .error _ => return false

/-- Writes a text to a stream, and says whether that was possible. -/
def write (stream : Nat) (text : String) : Sh Bool := do
  writeTo (← channel? stream) text

/-- Writes a text to the stream of complaints. -/
def writeError (text : String) : Sh Unit := do
  let _ ← write 2 text

/-- Everything that can still be read from a stream. -/
def unread (stream : Nat) : Sh Bytes := do
  match ← channel? stream with
  | none => return []
  | some id => return (← world).unreadOf id

/-- Takes some bytes from a stream as read. -/
def skipBytes (stream count : Nat) : Sh Unit := do
  match ← channel? stream with
  | none => return ()
  | some id => modifyWorld fun w => w.skip id count

/-- Opens a channel. -/
def openChannel (c : Channel) : Sh ChannelId := do
  let (id, w) := (← world).open c
  modifyWorld fun _ => w
  return id

/-- Leads a stream to a channel, or closes it. -/
def setStream (stream : Nat) (channel : Option ChannelId) : Sh Unit :=
  modifyShell fun s =>
    let others := s.streams.filter (·.1 != stream)
    { s with streams := match channel with
        | some id => (stream, id) :: others
        | none => others }

/-! ### Complaints -/

/-- Complains of something, with the name of the script, the line and the command. -/
def warn (message : String) : Sh Unit := do
  let s ← shell
  let command := match s.commandName with
    | some name => s!"{name}: "
    | none => ""
  writeError s!"{s.name}: {s.line}: {command}{message}\n"

/-- The end of an action because of an error, with an exit code. -/
def failWith {α : Type} (status : Nat) (message : String) : Sh α := do
  warn message
  modifyShell fun s => { s with status }
  throw .error

/-- The end of an action because of an error. -/
def fail {α : Type} (message : String) : Sh α :=
  failWith 2 message

/-! ### Variables -/

/-- A variable, if it is known. -/
def lookup? (name : String) : Sh (Option Variable) := do
  return (← shell).bindings.lookup name

/-- The value of a variable, if it has one. -/
def value? (name : String) : Sh (Option String) := do
  return (← lookup? name).bind (·.value)

/-- Puts a variable in the place of what was known under its name. -/
def putVariable (name : String) (v : Option Variable) : Sh Unit :=
  modifyShell fun s =>
    let others := s.bindings.filter (·.1 != name)
    { s with bindings := match v with
        | some v => (name, v) :: others
        | none => others }

/-- Gives a variable a value, and exports it if asked to. -/
def assign (name value : String) (exported : Bool := false) : Sh Unit := do
  let old := (← lookup? name).getD {}
  if old.readOnly then fail s!"{name}: is read only"
  else
    let all := (← shell).options.exportAll
    putVariable name (some { old with
      value := some value
      exported := old.exported || exported || all })
    if name = "OPTIND" then
      match value.toNat? with
      | some n => modifyShell fun s => { s with optionIndex := max 1 n, optionOffset := none }
      | none => fail s!"Illegal number: {value}"

/-- Forgets a variable. -/
def unset (name : String) : Sh Unit := do
  match ← lookup? name with
  | none => return ()
  | some v =>
    if v.readOnly then fail s!"{name}: is read only"
    else putVariable name none

/-- Puts a variable back at the end of the innermost scope. -/
def makeLocal (name : String) : Sh Unit := do
  let old ← lookup? name
  modifyShell fun s =>
    { s with saved := match s.saved with
        | scope :: outer =>
          (if scope.any (·.1 == name) then scope else (name, old) :: scope) :: outer
        | [] => [] }

/-- Opens a scope of variables. -/
def openScope : Sh Unit :=
  modifyShell fun s => { s with saved := [] :: s.saved }

/-- Closes scopes of variables until a number of them is left, and puts the variables back. -/
def closeScopes (depth : Nat) : Sh Unit :=
  modifyShell fun s =>
    let (inner, outer) := s.saved.splitAt (s.saved.length - depth)
    let bindings := inner.flatten.foldl (fun bindings (name, old) =>
      let others := bindings.filter (·.1 != name)
      match old with
      | some v => (name, v) :: others
      | none => others) s.bindings
    { s with bindings, saved := outer }

/-- The variables that programs are started with. -/
def environment : Sh (List (String × String)) := do
  return (← shell).bindings.filterMap fun (name, v) =>
    if v.exported then v.value.map (name, ·) else none

/-- The characters that separate fields. -/
def separators : Sh (List Char) := do
  return ((← value? "IFS").getD " \t\n").toList

end Sh

end TileFlow.Script
