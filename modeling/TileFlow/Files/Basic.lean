import TileFlow.Error
import TileFlow.Text.Path

/-!
# Trees of files

A tree of files gives each location below the root a directory or a file. What a file holds is
kept apart from its location, under an identity: whoever has a file open goes on writing to it
after its location was given up or taken over by another file.

A path leads to a location step by step through directories. The answers to a path that leads
nowhere are those of `SystemError`, in the order in which the steps are taken.

A location may also hold a device: an end of all that is written, and of nothing to read.

## Main definitions

* `Device`, `Node`: what can be at a location.
* `FileTree`: locations and contents.
* `pathError?`, `nameError?`: the limits of paths and names.
* `FileTree.locate`, `FileTree.place`: where a path leads, and where it puts a new entry.
* `FileTree.read`, `FileTree.readText`: the contents behind a path.
* `FileTree.makeDirectory`, `FileTree.openEmpty`, `FileTree.unlink`: changes at a path.
* `FileTree.changesSince`: what differs from an earlier tree.
-/

namespace TileFlow

/-- The names from the root down to a directory or a file. -/
abbrev Location := List String

/-- The absolute path of a location. -/
def Location.path (l : Location) : String :=
  "/" ++ "/".intercalate l

/-- The identity of a file: how many were created before it. -/
abbrev FileId := Nat

/-- What is neither a file nor a directory: nothing can be read from it, and nothing that is
written to it is kept. -/
inductive Device where
  /-- Takes whatever is written. -/
  | null
  /-- Has no room for anything. -/
  | full
  deriving DecidableEq, Repr

/-- What is at a location. -/
inductive Node where
  | directory
  | file (id : FileId) (executable : Bool)
  | device (d : Device)
  deriving DecidableEq, Repr

/-- What can be written to. -/
inductive Outlet where
  | file (id : FileId)
  | device (d : Device)
  deriving DecidableEq, Repr

/-- The bytes of a file. -/
abbrev Bytes := List UInt8

/-- The bytes of a text in UTF-8. -/
def Bytes.ofText (s : String) : Bytes :=
  s.toUTF8.toList

/-- The text of bytes in UTF-8, if they are one. -/
def Bytes.text? (bytes : Bytes) : Option String :=
  String.fromUTF8? ⟨bytes.toArray⟩

/-- Bytes with others put over them from an offset on; a gap before it is filled with zeros.
To put nothing over them changes nothing, not even where the offset lies behind them. -/
def Bytes.overwrite (old : Bytes) (offset : Nat) (new : Bytes) : Bytes :=
  if new.isEmpty then old
  else old.take offset ++ List.replicate (offset - old.length) 0 ++ new ++
    old.drop (offset + new.length)

/-- A tree of files. The root is a directory without an entry of its own. -/
structure FileTree where
  nodes : List (Location × Node) := []
  contents : Array Bytes := #[]
  deriving DecidableEq, Inhabited

namespace FileTree

/-- What is at a location. -/
def node? (t : FileTree) (l : Location) : Option Node :=
  if l = [] then some .directory else t.nodes.lookup l

/-- What the file with an identity holds. -/
def contentsOf (t : FileTree) (id : FileId) : Bytes :=
  (t.contents[id]?).getD []

/-- The tree with a location given a new entry. -/
def put (t : FileTree) (l : Location) (node : Node) : FileTree :=
  { t with nodes := (l, node) :: t.nodes.filter (·.1 != l) }

/-- The tree without the entry of a location. -/
def erase (t : FileTree) (l : Location) : FileTree :=
  { t with nodes := t.nodes.filter (·.1 != l) }

/-- The tree with a new file at a location, and the identity of the file. -/
def addFile (t : FileTree) (l : Location) (bytes : Bytes) (executable : Bool) :
    FileId × FileTree :=
  let id := t.contents.size
  (id, { t with contents := t.contents.push bytes }.put l (.file id executable))

/-- The tree with bytes put over those of a file from an offset on. -/
def writeAt (t : FileTree) (id : FileId) (offset : Nat) (bytes : Bytes) : FileTree :=
  { t with contents := t.contents.modify id (·.overwrite offset bytes) }

/-- The tree with bytes written to an outlet from an offset on. A full device only takes
nothing. -/
def writeOut (t : FileTree) (outlet : Outlet) (offset : Nat) (bytes : Bytes) :
    Except SystemError FileTree :=
  match outlet with
  | .file id => .ok (t.writeAt id offset bytes)
  | .device .null => .ok t
  | .device .full => if bytes.isEmpty then .ok t else .error .noSpace

/-- The names of what is directly below a location. -/
def namesIn (t : FileTree) (l : Location) : List String :=
  t.nodes.filterMap fun (k, _) => if k.dropLast = l then k.getLast? else none

/-! ### Paths -/

/-- The length of the longest name in bytes. -/
def nameLimit : Nat := 255

/-- A path is shorter than this many bytes. -/
def pathLimit : Nat := 4096

/-- Why a text cannot be a path, wherever it would lead. -/
def pathError? (path : String) : Option SystemError :=
  if path.toList.contains '\x00' then some .nulInPath
  else if path = "" then some .notFound
  else if pathLimit ≤ path.utf8ByteSize then some .nameTooLong
  else none

/-- Why a text cannot be a name in a directory. -/
def nameError? (name : String) : Option SystemError :=
  if nameLimit < name.utf8ByteSize then some .nameTooLong else none

/-- The answer to looking up a name in what is taken for a directory, if it is an error. -/
def lookupError? (node : Option Node) (name : String) : Option SystemError :=
  match node with
  | some .directory => nameError? name
  | some _ => some .notADirectory
  | none => some .notFound

/-- Where some names lead from a location. Each is looked up in a directory; whether there is
something at the end is left open. -/
def walk (t : FileTree) : Location → List String → Except SystemError Location
  | l, [] => .ok l
  | l, name :: rest =>
    match lookupError? (t.node? l) name with
    | some e => .error e
    | none =>
      if name = "." then t.walk l rest
      else if name = ".." then t.walk l.dropLast rest
      else t.walk (l ++ [name]) rest

/-- The location that a path starts from. -/
def start (directory : Location) (path : String) : Location :=
  if Path.isAbsolute path then [] else directory

/-- What a path leads to, with the location. A path with a slash at its end only leads to a
directory. -/
def locate (t : FileTree) (directory : Location) (path : String) :
    Except SystemError (Location × Node) :=
  match pathError? path with
  | some e => .error e
  | none =>
    let names := Path.names path ++ if Path.endsInSlash path then ["."] else []
    match t.walk (start directory path) names with
    | .error e => .error e
    | .ok l =>
      match t.node? l with
      | some node => .ok (l, node)
      | none => .error .notFound

/-- Whether a path leads to something. -/
def hasEntry (t : FileTree) (directory : Location) (path : String) : Bool :=
  (t.locate directory path).isOk

/-- Whether a path leads to a directory. -/
def isDirectory (t : FileTree) (directory : Location) (path : String) : Bool :=
  match t.locate directory path with
  | .ok (_, .directory) => true
  | _ => false

/-- The location at which a path puts a new entry; none if the path ends in the name of a
directory that is always there. -/
def place (t : FileTree) (directory : Location) (path : String) :
    Except SystemError (Option Location) :=
  match pathError? path with
  | some e => .error e
  | none =>
    match (Path.names path).getLast? with
    | none => .ok none
    | some last =>
      match t.walk (start directory path) (Path.names path).dropLast with
      | .error e => .error e
      | .ok l =>
        match lookupError? (t.node? l) last with
        | some e => .error e
        | none => .ok (if last = "." ∨ last = ".." then none else some (l ++ [last]))

/-! ### Reading and changing -/

/-- The bytes behind a path. -/
def read (t : FileTree) (directory : Location) (path : String) : Except SystemError Bytes :=
  match t.locate directory path with
  | .error e => .error e
  | .ok (_, .directory) => .error .isADirectory
  | .ok (_, .device _) => .ok []
  | .ok (_, .file id _) => .ok (t.contentsOf id)

/-- The text behind a path. -/
def readText (t : FileTree) (directory : Location) (path : String) :
    Except SystemError String :=
  match t.read directory path with
  | .error e => .error e
  | .ok bytes =>
    match bytes.text? with
    | some s => .ok s
    | none => .error .invalidText

/-- The tree with a new directory. Its parent must be there already. -/
def makeDirectory (t : FileTree) (directory : Location) (path : String) :
    Except SystemError FileTree :=
  match t.place directory path with
  | .error e => .error e
  | .ok none => .error .alreadyExists
  | .ok (some l) =>
    if (t.node? l).isSome then .error .alreadyExists else .ok (t.put l .directory)

/-- What a path leads to, opened for writing. A missing file is created. -/
def openOrCreate (t : FileTree) (directory : Location) (path : String) :
    Except SystemError (Outlet × FileTree) :=
  match t.place directory path with
  | .error e => .error e
  | .ok none => .error .isADirectory
  | .ok (some l) =>
    if Path.endsInSlash path then .error .isADirectory
    else
      match t.node? l with
      | some .directory => .error .isADirectory
      | some (.device d) => .ok (.device d, t)
      | some (.file id _) => .ok (.file id, t)
      | none =>
        let (id, t) := t.addFile l [] false
        .ok (.file id, t)

/-- The tree in which an outlet has lost its contents. -/
def empty (t : FileTree) : Outlet → FileTree
  | .file id => { t with contents := t.contents.modify id fun _ => [] }
  | .device _ => t

/-- What a path leads to, opened for writing: a file loses its contents, a missing one is
created. -/
def openEmpty (t : FileTree) (directory : Location) (path : String) :
    Except SystemError (Outlet × FileTree) :=
  match t.openOrCreate directory path with
  | .error e => .error e
  | .ok (outlet, t) => .ok (outlet, t.empty outlet)

/-- The tree without the file that a path names. Nothing changes if it names none. -/
def unlink (t : FileTree) (directory : Location) (path : String) : FileTree :=
  match t.place directory path with
  | .ok (some l) =>
    match t.node? l with
    | some (.file ..) => if Path.endsInSlash path then t else t.erase l
    | _ => t
  | _ => t

/-! ### Whole trees -/

/-- The tree with a directory at a location and at each one above it. -/
def addDirectories (t : FileTree) (l : Location) : FileTree :=
  (List.range l.length).foldl (fun t i =>
    let parent := l.take (i + 1)
    if (t.node? parent).isSome then t else t.put parent .directory) t

/-- What the tree holds at a location: nothing but its presence if it is no file. -/
def snapshot? (t : FileTree) (l : Location) : Option (Option Bytes) :=
  (t.node? l).map fun
    | .file id _ => some (t.contentsOf id)
    | _ => none

/-- The entries that an earlier tree had not, or not with these contents. -/
def changesSince (t before : FileTree) : List (Location × Option Bytes) :=
  t.nodes.filterMap fun (l, _) =>
    let now := t.snapshot? l
    if now = before.snapshot? l then none else now.map (l, ·)

/-- The locations at which an earlier tree had something and this one has nothing. -/
def removedSince (t before : FileTree) : List Location :=
  before.nodes.filterMap fun (l, _) => if (t.node? l).isSome then none else some l

end FileTree

end TileFlow
