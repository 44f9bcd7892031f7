import TileFlow.Files.Basic

/-!
# Toolchains

The places where a compilation finds its tools: the directories of the host's search path, a
vendor installation with the tools of the array, and an installation of the backend.

## Main definitions

* `HostEnvironment`: what the search for tools depends on, besides the files.
* `Toolchain`: the places that were found.
* `Toolchain.ofInstallation`: the places that go with a vendor installation.
* `Toolchain.discover`: the search.
* `Toolchain.backendTool`: where a tool of the backend is.
* `Toolchain.environment`: the environment that tools are started in.
-/

namespace TileFlow

namespace FileTree

/-- A directory of a search path as it is looked into: a first name that is a tilde stands for
the home directory. -/
def expandHome (home : Option String) (entry : String) : String :=
  match Path.isAbsolute entry, Path.names entry with
  | false, "~" :: rest => rest.foldl Path.join (home.getD "")
  | _, _ => entry

/-- The location of the first executable file of a name in some directories. -/
def findExecutable (t : FileTree) (directory : Location) (name : String) :
    List String → Option Location
  | [] => none
  | entry :: rest =>
    match t.locate directory (Path.join entry name) with
    | .ok (l, .file _ true) => some l
    | _ => t.findExecutable directory name rest

end FileTree

/-- The variables of the host that the search for tools depends on, and how the host looks for a
program (`HostEnv`). -/
structure HostEnvironment where
  vitis : Option String := none
  peano : Option String := none
  path : Option String := none
  home : Option String := none
  /-- Where a program is, by its name and the directories of a search path (`which_in`). -/
  which : FileTree → Location → String → List String → Option Location :=
    fun t directory name entries =>
      t.findExecutable directory name (entries.map (FileTree.expandHome home))

/-- The directories of a search path. -/
def HostEnvironment.searchPath (host : HostEnvironment) : List String :=
  match host.path with
  | some path => Text.split ':' path
  | none => []

/-- The places of tools (`Toolchain`). -/
structure Toolchain where
  vitisRoot : Option String := none
  aietoolsRoot : Option String := none
  peanoRoot : Option String := none
  searchPath : List String := []
  deriving DecidableEq, Repr, Inhabited

namespace Toolchain

/-- The directory two levels above a file. -/
def installationOf (l : Location) : Option String :=
  if 2 ≤ l.length then some (Location.path (l.take (l.length - 2))) else none

/-- The vendor installation (in `discover`): the one that was named, or else the one that the
vendor's compiler on the search path belongs to. -/
def findVitis (t : FileTree) (directory : Location) (host : HostEnvironment) : Option String :=
  host.vitis.or ((host.which t directory "v++" host.searchPath).bind installationOf)

/-- The tools of the array in a vendor installation, under the newer or the older name (in
`discover`). -/
def aietoolsOf (t : FileTree) (directory : Location) (vitis : String) : String :=
  let aietools := Path.join vitis "aietools"
  if t.hasEntry directory aietools then aietools else Path.join vitis "cardano"

/-- The places of tools, with a vendor installation or without one (in `discover`). The vendor's
directories come after those of the host. -/
def ofInstallation (t : FileTree) (directory : Location) (peano : Option String)
    (host : HostEnvironment) (vitis : Option String) : Toolchain :=
  let aietools := vitis.map (aietoolsOf t directory)
  let vendor := match vitis, aietools with
    | some vitis, some aietools => [Path.join aietools "bin", Path.join vitis "bin"]
    | _, _ => []
  { vitisRoot := vitis
    aietoolsRoot := aietools
    peanoRoot := peano.or host.peano
    searchPath := host.searchPath ++ vendor }

/-- The places of tools in a tree of files, for a directory that relative paths start from
(`discover`). -/
def discover (t : FileTree) (directory : Location) (peano : Option String)
    (host : HostEnvironment) : Toolchain :=
  ofInstallation t directory peano host (findVitis t directory host)

/-- The path of a tool of the backend (`peano_tool`): below `bin` if there is something, or else
directly below the installation. Without an installation it is left to the search path. -/
def backendTool (c : Toolchain) (t : FileTree) (directory : Location) (tool : String) : String :=
  match c.peanoRoot with
  | none => tool
  | some root =>
    let inBin := Path.join (Path.join root "bin") tool
    if t.hasEntry directory inBin then inBin else Path.join root tool

/-- The search path as one text (`search_path_var`). A directory whose path holds the separator
cannot be part of one, and leaves it empty. -/
def searchPathText (c : Toolchain) : String :=
  if c.searchPath.any (·.toList.contains ':') then "" else Text.joinWith ':' c.searchPath

/-- The variables that tools find in their environment (`child_env`). -/
def environment (c : Toolchain) : List (String × String) :=
  [("PATH", c.searchPathText)] ++
    (c.vitisRoot.map ("VITIS", ·)).toList ++ (c.aietoolsRoot.map ("AIETOOLS", ·)).toList

end Toolchain

end TileFlow
