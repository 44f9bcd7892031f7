import TileFlow.Shell.Builtin.Arguments

/-!
# Commands on the shell itself

The directory, signals, processes in the background, and the order in which commands are run.

A shell that is sent a signal runs the commands that it has for it, passes over it, or ends.
The commands are run between two others. A shell that waits for another meets a signal only
after that one has ended.

## Main definitions

* `Builtin.cd`, `Builtin.pwd`: the directory.
* `Sh.receive`, `Sh.send`: signals.
* `Builtin.trap`, `Builtin.kill`, `Builtin.wait`: what is done with them.
* `Builtin.exit`, `Builtin.leave`, `Builtin.skipTurns`: what comes next.
-/

namespace TileFlow.Script

namespace Sh

/-! ### The directory -/

/-- The directory as a text. -/
def directoryText (s : Shell) : String :=
  ByteText.encode (Location.path s.directory)

/-- A location further on, by names of which some lead back. -/
def stepNames (l : Location) : List String → Location
  | [] => l
  | "." :: rest => stepNames l rest
  | ".." :: rest => stepNames l.dropLast rest
  | name :: rest => stepNames (l ++ [name]) rest

/-- The directory that a path leads to, if it leads to one. -/
def directoryAt? (path : String) : Sh (Option Location) := do
  let path := ByteText.decode path
  let start := FileTree.start (← shell).directory path
  let l := stepNames start (Path.names path)
  match (← world).files.locate [] (Location.path l) with
  | .ok (_, .directory) => return some l
  | _ => return none

/-- Makes a location the directory. -/
def enter (l : Location) : Sh Unit := do
  let before := directoryText (← shell)
  modifyShell fun s => { s with directory := l }
  assign "OLDPWD" before true
  assign "PWD" (directoryText (← shell)) true

/-- The directories that a path may start from, for a list of them and at last the directory
itself. A path that says where it starts is only looked up there. -/
def directoryChoices (list : Option String) (path : String) : List String :=
  let first := (Text.split '/' path).head?.getD ""
  match list with
  | some list =>
    if path.startsWith "/" ∨ first = "." ∨ first = ".." then [""]
    else Text.split ':' list ++ [""]
  | none => [""]

/-- The first directory that a path leads to from one of some directories, and whether it is
named then. -/
def firstDirectory? (path : String) : List String → Sh (Option (Location × Bool))
  | [] => return none
  | base :: rest => do
    match ← directoryAt? (if base = "" then path else base ++ "/" ++ path) with
    | some l => return some (l, base ≠ "")
    | none => firstDirectory? path rest

/-! ### Signals -/

/-- Meets a signal. -/
def receive (s : Signal) : Sh Unit := do
  let sh ← shell
  if s = 0 then return ()
  else if s.isForced ∧ ¬ s.isHarmless then throw (.killed s)
  else if sh.ignored.contains s then return ()
  else
    match sh.traps.lookup s with
    | some "" => return ()
    | some _ =>
      modifyShell fun sh =>
        { sh with pending := (s :: sh.pending.filter (· != s)).mergeSort (· ≤ ·) }
    | none => if s.isHarmless then return () else throw (.killed s)

/-- Meets the signals that the shell was sent by others. -/
def receiveAll : Sh Unit := do
  let own := (← shell).process
  let mine := (← world).signals.filter (·.1 == own)
  modifyWorld fun w => { w with signals := w.signals.filter (·.1 != own) }
  mine.forM fun (_, s) => receive s

/-- Sends a signal to a process, and says whether there is such a process. -/
def send (process : Int) (s : Signal) : Sh Bool := do
  let sh ← shell
  if process = sh.process ∨ process = 0 then
    receive s
    return true
  else if (← world).running.any fun p => (p : Int) == process then
    modifyWorld fun w => { w with signals := w.signals ++ [(process.toNat, s)] }
    return true
  else return sh.finished.any fun (p, _) => (p : Int) == process

/-- Writes a line on standard error about each process that was ended by a signal. -/
def tellSignal (s : Signal) : Sh Unit :=
  if s.isTold then writeError s!"{s.description}\n" else pure ()

end Sh

namespace Builtin

/-- Changes the directory. -/
def cd (args : List String) : Sh Nat := do
  let (_, args) ← Sh.options ['L', 'P'] [] args
  let (wanted, prints) ← match args with
    | [] => do pure ((← Sh.value? "HOME").getD "", false)
    | "-" :: _ => do pure ((← Sh.value? "OLDPWD").getD "", true)
    | path :: _ => pure (path, false)
  let path := if wanted = "" then "." else wanted
  let choices := Sh.directoryChoices (← Sh.value? "CDPATH") path
  match ← Sh.firstDirectory? path choices with
  | none => Sh.fail s!"can't cd to {wanted}"
  | some (l, named) =>
    Sh.enter l
    if prints ∨ named then Sh.answer (Sh.directoryText (← Sh.shell) ++ "\n") else return 0

/-- Prints the directory. -/
def pwd (args : List String) : Sh Nat := do
  let _ ← Sh.options ['L', 'P'] [] args
  Sh.answer (Sh.directoryText (← Sh.shell) ++ "\n")

/-- Three octal digits behind a zero. -/
def octalMask (n : Nat) : String :=
  let digits := Nat.toDigits 8 n
  String.ofList (List.replicate (4 - digits.length) '0' ++ digits)

/-- The rights that a digit of a mask leaves. -/
def rightsLeft (digit : Nat) : String :=
  String.ofList ([(4, 'r'), (2, 'w'), (1, 'x')].filterMap fun (bit, c) =>
    if digit / bit % 2 = 0 then some c else none)

/-- Shows or changes the rights that new files are not given. -/
def umask (args : List String) : Sh Nat := do
  let (options, args) ← Sh.options ['S'] [] args
  let mask := (← Sh.shell).mask
  match args with
  | [] =>
    let shown := if options.isEmpty then octalMask mask
      else s!"u={rightsLeft (mask / 64)},g={rightsLeft (mask / 8)},o={rightsLeft mask}"
    Sh.answer (shown ++ "\n")
  | text :: _ =>
    if text.toList.all Char.isDigit ∧ text ≠ "" then
      if text.toList.all fun c => c ≤ '7' then
        let n := text.toList.foldl (fun n c => n * 8 + (c.toNat - '0'.toNat)) 0
        Sh.modifyShell fun s => { s with mask := n % 512 }
        return 0
      else Sh.fail s!"Illegal number: {text}"
    else Sh.fail s!"Illegal mode: {text}"

/-! ### Signals -/

/-- The commands on signals, as they would be set. -/
def trapListing (s : Shell) : String :=
  String.join ((s.traps.mergeSort fun a b => decide (a.1 ≤ b.1)).map fun (signal, action) =>
    s!"trap -- {singleQuoted action} {signal.name}\n")

/-- Sets the commands on some signals, or takes them away. -/
def setTraps (action : Option String) : List String → Sh Nat
  | [] => return 0
  | name :: rest => do
    match Signal.ofText? name with
    | none =>
      Sh.writeError s!"trap: {name}: bad trap\n"
      return 1
    | some signal =>
      Sh.modifyShell fun s =>
        let others := s.traps.filter (·.1 != signal)
        { s with traps := match action with
            | some action => (signal, action) :: others
            | none => others }
      setTraps action rest

/-- Sets or lists the commands on signals. -/
def trap (args : List String) : Sh Nat := do
  match ← Sh.operands args with
  | [] => Sh.answer (trapListing (← Sh.shell))
  | [name] => setTraps none [name]
  | action :: names =>
    let resets := action.toList.all Char.isDigit && (Signal.ofText? action).isSome
    if resets then setTraps none (action :: names)
    else setTraps (if action = "-" then none else some action) names

/-- How signals are sent. -/
def killUsage : String :=
  "Usage: kill [-s sigspec | -signum | -sigspec] [pid | job]... or\nkill -l [exitstatus]"

/-- The names of all signals, or of the one that an exit code tells of. -/
def listSignals (args : List String) : Sh Nat := do
  match args with
  | [] => Sh.answer ("0\n" ++ String.join (Signal.all.map fun s => s.name ++ "\n"))
  | text :: _ =>
    let n ← Sh.count text
    let signal : Signal := if 128 < n then n - 128 else n
    if 0 < signal ∧ signal ≤ Signal.free.2 then Sh.answer (signal.name ++ "\n")
    else Sh.fail s!"invalid signal number or exit status: {text}"

/-- Sends a signal to the processes that arguments name. -/
def sendTo (signal : Signal) (status : Nat) : List String → Sh Nat
  | [] => return status
  | arg :: rest => do
    let process : Int ← match arg.toList with
      | '%' :: _ => Sh.fail s!"No such job: {arg}"
      | '-' :: digits => do pure (-(← Sh.count (String.ofList digits) : Int))
      | _ => do pure (← Sh.count arg : Int)
    if ← Sh.send process signal then sendTo signal status rest
    else
      Sh.warn "No such process\n"
      sendTo signal 1 rest

/-- Sends signals. -/
def kill (args : List String) : Sh Nat := do
  let usage : Sh Nat := Sh.fail killUsage
  let direct := match args with
    | first :: rest =>
      match first.toList with
      | '-' :: name => (Signal.ofText? (String.ofList name)).map (·, rest)
      | _ => none
    | [] => none
  match direct with
  | some (signal, processes) => if processes.isEmpty then usage else sendTo signal 0 processes
  | none =>
    let (options, processes) ← Sh.options ['l'] ['s'] args
    let signal ← match (options.filter (·.1 == 's')).getLast? with
      | none => pure none
      | some (_, name) =>
        match Signal.ofText? name with
        | some signal => pure (some signal)
        | none => Sh.fail s!"invalid signal number or name: {name}"
    if options.any (·.1 == 'l') then
      if signal.isSome then usage else listSignals processes
    else if processes.isEmpty then usage
    else sendTo (signal.getD Signal.terminate) 0 processes

/-- Waits for processes in the background, which have ended by then. -/
def wait (args : List String) : Sh Nat := do
  match ← Sh.operands args with
  | [] =>
    Sh.modifyShell fun s => { s with finished := [] }
    return 0
  | names =>
    let codes ← names.mapM fun name => do
      let process ← Sh.count name
      let code := (← Sh.shell).finished.lookup process
      Sh.modifyShell fun s => { s with finished := s.finished.filter (·.1 != process) }
      return code.getD 127
    return codes.getLast?.getD 0

/-! ### What comes next -/

/-- Ends the shell. -/
def exit (args : List String) : Sh Nat := do
  match args with
  | [] => throw .exit
  | text :: _ =>
    let n ← Sh.count text
    Sh.modifyShell fun s => { s with savedStatus := some n }
    throw .exit

/-- Ends the function or the script that runs. -/
def leave (args : List String) : Sh Nat := do
  let (given, status) ← match args with
    | [] => do pure (false, (← Sh.shell).status)
    | text :: _ => do pure (true, ← Sh.count text)
  Sh.modifyShell fun s => { s with skip := .leaveFunction given }
  return status

/-- Ends turns of the loops that run. -/
def skipTurns (skip : Skip) (args : List String) : Sh Nat := do
  let text := args.head?.getD "1"
  let n ← Sh.count text
  if n = 0 then Sh.fail s!"Illegal number: {text}"
  else
    let n := min n (← Sh.shell).loopDepth
    if 0 < n then Sh.modifyShell fun s => { s with skip, skipCount := n }
    return 0

end Builtin

end TileFlow.Script
