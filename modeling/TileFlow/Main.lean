import TileFlow.CommandLine.Paths
import TileFlow.Tool.Script.Tools

/-!
# The program

The outer layer: it reads the variables and the files that a call looks at, runs the call on
them, and writes what it printed and changed. Tools are run if they are scripts.
-/

namespace TileFlow.Main

/-- How much of a tool is read. Scripts are shorter, and nothing else can be run. -/
def toolLimit : USize := 65536

/-- The bytes of a file, of a tool only the first ones. -/
def readBytes (isTool : Bool) (path : String) : IO ByteArray := do
  if isTool then
    let file ← IO.FS.Handle.mk path .read
    file.read toolLimit
  else IO.FS.readBinFile path

/-- What the disk has under an absolute path. -/
def probe (isTool : Bool) (path : String) : IO (Option (Option Bytes)) := do
  try
    let bytes ← readBytes isTool path
    return some (some bytes.toList)
  catch
    | .inappropriateType _ 21 _ => return some none
    | _ => return none

/-- The tree with what the disk has at a location, unless it is known already. -/
def loadLocation (isTool : Bool) (t : FileTree) (l : Location) : IO FileTree := do
  if (t.node? l).isSome then return t
  match ← probe isTool l.path with
  | some (some bytes) => return (t.addFile l bytes true).2
  | some none => return t.put l .directory
  | none => return t

/-- The tree with what the disk has along a path. -/
def loadPath (isTool : Bool) (directory : Location) (t : FileTree) (path : String) :
    IO FileTree := do
  let mut t := t
  let mut l := FileTree.start directory path
  for name in Path.names path do
    if name = ".." then
      l := l.dropLast
    else if name ≠ "." then
      l := l ++ [name]
      t ← loadLocation isTool t l
  return t

/-- Writes the changes of a tree to the disk, outer directories first. -/
def save (before after : FileTree) : IO Unit := do
  let changes := (after.changesSince before).mergeSort fun a b => a.1.length ≤ b.1.length
  for (l, content) in changes do
    match content with
    | none => IO.FS.createDir l.path
    | some bytes => IO.FS.writeBinFile l.path ⟨bytes.toArray⟩
  for l in after.removedSince before do
    IO.FS.removeFile l.path

/-- The variables that tools find besides those that are set for them, as far as they are
known here. -/
def inherited (host : HostEnvironment) : List (String × String) :=
  (host.home.map ("HOME", ·)).toList ++ (host.path.map ("PATH", ·)).toList

/-- Runs a call with the files that it looks at. -/
def call (args : List String) : IO UInt32 := do
  let host : HostEnvironment := {
    vitis := ← IO.getEnv "VITIS"
    peano := ← IO.getEnv "PEANO_INSTALL_DIR"
    path := ← IO.getEnv "PATH"
    home := ← IO.getEnv "HOME" }
  let directory : Location := Path.names (toString (← IO.currentDir))
  let program := Path.names (toString (← IO.appPath))
  let installation := Location.path (program.take (program.length - 2))
  let shells := Script.shellLocations.map Location.path
  let system ← shells.foldlM (loadPath true []) {}
  let here ← loadPath false [] system directory.path
  let requested := CommandLine.requestedPaths installation directory.path args
  let asked ← requested.foldlM (loadPath false directory) here
  let tools := CommandLine.hostPaths host installation args
  let found ← tools.foldlM (loadPath true directory) asked
  let toolchain := Toolchain.discover found directory none host
  let files ← (CommandLine.toolchainPaths toolchain).foldlM (loadPath true directory) found
  let outcome := CommandLine.run
    { host, directory, tools := Script.tools (inherited host), installation, files } args
  save files outcome.files
  IO.print outcome.output
  IO.eprint outcome.errors
  return UInt32.ofNat outcome.code

end TileFlow.Main

/-- The program with its arguments. -/
def main (args : List String) : IO UInt32 :=
  TileFlow.Main.call args
