import TileFlow.Shell.Builtin.Process
import TileFlow.Shell.Program
import TileFlow.Shell.Reader.Grammar

/-!
# Processes

A shell runs commands in a copy of itself, or starts another shell on a script. Such a process
goes on to its end before the one that started it goes on. What it did to the world stays; how it
ended is told as an exit code.

What is said here holds for any evaluator of commands.

## Main definitions

* `Evaluator`: what runs commands.
* `Sh.runText`: the effect of a text of commands.
* `Sh.runTraps`: the commands on signals that came.
* `Outcome`, `Sh.finish`: the end of a process.
* `Sh.inCopy`: the effect of an action in a copy of the shell.
* `Sh.commandOutput`: what commands write.
-/

namespace TileFlow.Script

/-- What runs a command, for whether its exit code is looked at. -/
abbrev Evaluator := Bool → Command → Sh Unit

/-- How a process ended. -/
inductive Outcome where
  | exited (code : Nat)
  | killed (signal : Signal)
  deriving DecidableEq

/-- A shell as a copy of it starts. -/
def Shell.copy (s : Shell) (process : Nat) : Shell :=
  { s with
    process
    traps := s.traps.filter (·.2 == "")
    pending := []
    finished := [] }

/-- The number of turns that a loop is given. -/
def turnLimit : Nat := 200000

namespace Sh

/-- The exit code of the last command. -/
def status : Sh Nat := do
  return (← shell).status

/-- Sets the exit code. -/
def setStatus (status : Nat) : Sh Unit :=
  modifyShell fun s => { s with status }

/-- Sets the line that complaints name. -/
def setLine (line : Nat) : Sh Unit :=
  modifyShell fun s => { s with line }

/-- Goes on with an interrupt if there was one. -/
def resume {α : Type} : Except Interrupt α → Sh α
  | .ok a => return a
  | .error i => throw i

/-- Runs an action, and another one after it even if it is cut short. -/
def andFinally {α : Type} (x : Sh α) (after : Sh Unit) : Sh α := do
  let result ← attempt x
  after
  resume result

/-- The end of an action at a place where a script cannot be read on. -/
def failSyntax {α : Type} (e : SyntaxError) : Sh α := do
  setLine e.line
  fail s!"Syntax error: {e.message}"

section

variable (self : Evaluator)

/-- Runs the commands of a text line by line, and gives the exit code of the last one. Lines are
shown as they are read if asked for. -/
def runText (tested shows : Bool) (source : String) : Sh Nat := do
  let start : Reader × Nat := ({ rest := source.toList }, 0)
  repeatUpTo (throw .exhausted) (fun (reader, status) => do
    let reader := { reader with documents := (← shell).documents }
    match reader.next? with
    | .error e => failSyntax e
    | .ok (command, rest) =>
      modifyShell fun s => { s with documents := rest.documents }
      if shows ∧ (← shell).options.verbose then
        writeError (String.ofList (reader.rest.take (reader.rest.length - rest.rest.length)))
      match command with
      | none => return .done status
      | some command =>
        self tested command
        let s ← shell
        let status := match command with
          | .nothing => status
          | _ => s.status
        return if s.skip = .none then .again (rest, status) else .done status)
    (source.length + 2) start

/-- Runs the commands on signals that came, and puts the exit code back after each, unless it
was given. -/
def runTraps : Sh Unit := do
  receiveAll
  let s ← shell
  if s.pending.isEmpty ∨ s.skip ≠ .none then return ()
  else
    let before := s.savedStatus
    let status := before.getD s.status
    modifyShell fun s => { s with savedStatus := some status }
    s.pending.forM fun signal => do
      if (← shell).skip = .none then
        modifyShell fun s => { s with pending := s.pending.filter (· != signal) }
        match (← shell).traps.lookup signal with
        | none => pure ()
        | some action =>
          let _ ← runText self false false action
          if (← shell).skip ≠ .leaveFunction true then setStatus status
    modifyShell fun s => { s with savedStatus := before }

/-! ### The end of a process -/

/-- The exit code with which a process ends that was cut short or came to its end. -/
def settle (cause : Except Interrupt Unit) : Sh Unit :=
  modifyShell fun s =>
    let asked := cause matches .error .exit
    let status := if asked ∨ s.skip = .leaveFunction false then s.savedStatus.getD s.status
      else s.status
    { s with status, savedStatus := none, skip := .none, loopDepth := 0 }

/-- Runs the commands that are left for the end. -/
def runLast : Sh Unit := do
  match (← shell).traps.lookup Signal.atEnd with
  | none => return ()
  | some action =>
    let before ← status
    modifyShell fun s =>
      { s with
        traps := s.traps.filter (·.1 != Signal.atEnd)
        savedStatus := some before }
    match ← attempt (runText self false false action) with
    | .ok _ => settle (.error .exit)
    | .error (.killed signal) => throw (.killed signal)
    | .error .exhausted => throw .exhausted
    | .error cause => settle (.error cause)

/-- The end of a process after the action that it was started for. -/
def finish (action : Sh Unit) : Sh Outcome := do
  let result ← attempt do
    let cause ← attempt action
    match cause with
    | .error (.killed signal) => throw (.killed signal)
    | .error .exhausted => throw .exhausted
    | _ =>
      settle cause
      runLast self
  match result with
  | .error (.killed signal) => return .killed signal
  | .error .exhausted => throw .exhausted
  | _ => return .exited ((← status) % 256)

/-! ### Copies -/

/-- Runs an action in a copy of the shell, which is not changed by it. -/
def inCopy (action : Sh Unit) : Sh Outcome := do
  let before ← shell
  let process := (← world).nextProcess
  modifyWorld fun w =>
    { w with nextProcess := process + 1, running := process :: w.running }
  modifyShell (·.copy process)
  let outcome ← andFinally (finish self action) (modifyShell fun _ => before)
  modifyWorld fun w =>
    { w with
      running := w.running.filter (· != process)
      signals := w.signals.filter (·.1 != process) }
  return outcome

/-- The exit code that tells how a process ended that was waited for. -/
def tell (outcome : Outcome) : Sh Nat := do
  match outcome with
  | .exited code => return code
  | .killed signal =>
    tellSignal signal
    return 128 + signal

/-- Runs an action in a copy of the shell, and gives the exit code that tells of it. Signals
from it are met after its end. -/
def copyStatus (action : Sh Unit) : Sh Nat := do
  let status ← tell (← inCopy self action)
  receiveAll
  return status

/-- What commands write, run in a copy of the shell. -/
def commandOutput (command : Command) : Sh String := do
  let id ← openChannel { endpoint := .buffer [], readable := true, writable := true }
  let outputStatus ← copyStatus self do
    setStream 1 (some id)
    self false command
  modifyShell fun s => { s with outputStatus }
  let bytes := ((← world).unreadOf id).filter (· != 0)
  return ByteText.ofBytes bytes

end

end Sh

end TileFlow.Script
