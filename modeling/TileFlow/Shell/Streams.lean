import TileFlow.Shell.Expansion

/-!
# Redirections

The redirections of a command are applied from the left: each opens a file or takes over a
channel that is open already. All their targets are expanded before the first one is applied.

## Main definitions

* `Sh.expandRedirections`: redirections with their targets expanded.
* `Sh.redirect`: their effect.
* `Sh.restoreStreams`: what takes it back.
-/

namespace TileFlow.Script

/-- The stream that a text names, or none for a text that closes a stream. -/
def streamNamed? (text : String) : Option (Option Nat) :=
  match text.toList with
  | ['-'] => some none
  | [c] => if c.isDigit then some (some (c.toNat - '0'.toNat)) else none
  | _ => none

namespace Sh

/-- A redirection with its target expanded. -/
def expandRedirection (output : Command → Sh String) (r : Redirection Word) :
    Sh (Redirection String) := do
  match r.kind with
  | .document index =>
    let text := ((← shell).documents[index]?).getD []
    return ⟨r.stream, r.kind, ← expandDocument output text⟩
  | .duplicate =>
    let target ← expandText output r.target
    if (streamNamed? target).isNone then fail "Syntax error: Bad fd number"
    else return ⟨r.stream, r.kind, target⟩
  | _ => return ⟨r.stream, r.kind, ← expandText output r.target⟩

/-- Redirections with their targets expanded. -/
def expandRedirections (output : Command → Sh String) (rs : List (Redirection Word)) :
    Sh (List (Redirection String)) :=
  rs.mapM (expandRedirection output)

/-! ### Opening -/

/-- The end of an action because a file cannot be opened. -/
def failToOpen {α : Type} (creates : Bool) (path : String) (e : SystemError) : Sh α :=
  let reason := match e with
    | .notFound | .notADirectory => if creates then "Directory nonexistent" else "No such file"
    | e => e.description
  let verb := if creates then "create" else "open"
  fail s!"cannot {verb} {path}: {reason}"

/-- Opens a file for reading. -/
def openForReading (path : String) : Sh Channel := do
  match (← world).files.locate (← shell).directory (ByteText.decode path) with
  | .error e => failToOpen false path e
  | .ok (_, .directory) => return { endpoint := .directory, readable := true }
  | .ok (_, .device d) => return { endpoint := .device d, readable := true }
  | .ok (_, .file id _) => return { endpoint := .file id, readable := true }

/-- Opens a file for writing, which is created if it is missing. -/
def openForWriting (path : String) (empties : Bool) : Sh Channel := do
  match (← world).files.openOrCreate (← shell).directory (ByteText.decode path) with
  | .error e => failToOpen true path e
  | .ok (outlet, files) =>
    modifyWorld fun w => { w with files := if empties then files.empty outlet else files }
    let endpoint := match outlet with
      | .file id => Endpoint.file id
      | .device d => Endpoint.device d
    return { endpoint, writable := true }

/-- Whether there is a file behind a path. -/
def isFile (path : String) : Sh Bool := do
  match (← world).files.locate (← shell).directory (ByteText.decode path) with
  | .ok (_, .file ..) => return true
  | _ => return false

/-- Opens what a redirection leads to, unless it takes over a channel. -/
def openTarget (kind : RedirectKind) (target : String) : Sh Channel := do
  match kind with
  | .read => openForReading target
  | .append => return { ← openForWriting target false with appends := true }
  | .readWrite => return { ← openForWriting target false with readable := true }
  | .overwrite => openForWriting target true
  | .write =>
    if (← shell).options.noClobber ∧ (← isFile target) then
      failToOpen true target .alreadyExists
    else openForWriting target true
  | .document _ | .duplicate =>
    return { endpoint := .buffer [ByteText.toBytes target], readable := true }

/-- Applies a redirection. -/
def redirectOne (r : Redirection String) : Sh Unit := do
  match r.kind with
  | .duplicate =>
    match streamNamed? r.target with
    | some (some source) =>
      if source ≠ r.stream then
        match ← channel? source with
        | some id => setStream r.stream (some id)
        | none => fail s!"{source}: {SystemError.badDescriptor.description}"
    | _ => setStream r.stream none
  | _ => setStream r.stream (some (← openChannel (← openTarget r.kind r.target)))

/-- Applies redirections. -/
def redirect (rs : List (Redirection String)) : Sh Unit :=
  rs.forM redirectOne

/-- Applies redirections, and says whether that was possible. -/
def redirectSafely (rs : List (Redirection String)) : Sh Bool := do
  match ← attempt (redirect rs) with
  | .ok () => return true
  | .error .error => return false
  | .error i => throw i

/-- Leads the streams of redirections back to where they led before. -/
def restoreStreams (rs : List (Redirection String)) (before : List (Nat × ChannelId)) :
    Sh Unit :=
  rs.forM fun r => setStream r.stream (before.lookup r.stream)

end Sh

end TileFlow.Script
