import TileFlow.Files.Basic

/-!
# Output files

An output file is opened empty and written through a buffer. It stays only if it is kept: one
that is given up is removed, so that a reader of the tree never meets half a file.

## Main definitions

* `OutputFile`: a file being written.
* `OutputFile.create`, `OutputFile.write`, `OutputFile.flush`: opening and writing.
* `OutputFile.keep`, `OutputFile.discard`: the two ends.
-/

namespace TileFlow

/-- A file being written (`OutputFile`): where it was opened, what was written through, and what
waits. -/
structure OutputFile where
  path : String
  outlet : Outlet
  offset : Nat := 0
  pending : Bytes := []
  deriving DecidableEq

namespace OutputFile

/-- How many bytes can wait. -/
def capacity : Nat := 8192

/-- The file behind a path, opened empty (`create`). -/
def create (directory : Location) (path : String) (t : FileTree) :
    Except SystemError (OutputFile × FileTree) :=
  match t.openEmpty directory path with
  | .error e => .error e
  | .ok (outlet, t) => .ok ({ path, outlet }, t)

/-- Writes bytes through, behind those that were written before. -/
def writeThrough (o : OutputFile) (bytes : Bytes) (t : FileTree) :
    Except SystemError (OutputFile × FileTree) :=
  match t.writeOut o.outlet o.offset bytes with
  | .error e => .error e
  | .ok t => .ok ({ o with offset := o.offset + bytes.length }, t)

/-- Writes through what waits (`flush`). -/
def flush (o : OutputFile) (t : FileTree) : Except SystemError (OutputFile × FileTree) :=
  match o.writeThrough o.pending t with
  | .error e => .error e
  | .ok (o, t) => .ok ({ o with pending := [] }, t)

/-- Writes bytes (`write`): they wait if there is room for them, and what waits goes first if there
is not. A piece that fills the buffer alone does not wait. -/
def write (o : OutputFile) (bytes : Bytes) (t : FileTree) :
    Except SystemError (OutputFile × FileTree) :=
  match if capacity < o.pending.length + bytes.length then o.flush t else .ok (o, t) with
  | .error e => .error e
  | .ok (o, t) =>
    if capacity ≤ bytes.length then o.writeThrough bytes t
    else .ok ({ o with pending := o.pending ++ bytes }, t)

/-- The tree in which the file stays, if all of it can be written (`keep`). -/
def keep (o : OutputFile) (t : FileTree) : Except SystemError FileTree :=
  (o.flush t).map (·.2)

/-- The tree in which the file is gone (`drop`). What waits is written first, if it can be. -/
def discard (o : OutputFile) (directory : Location) (t : FileTree) : FileTree :=
  match o.flush t with
  | .ok (_, t) => t.unlink directory o.path
  | .error _ => t.unlink directory o.path

end OutputFile

end TileFlow
