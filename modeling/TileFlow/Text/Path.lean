import TileFlow.Text.Split

/-!
# Paths

A path is a text of names with slashes between them. It is kept as it was given: joining adds
no second slash and drops none, so that a path is reported in the spelling that its user chose.

## Main definitions

* `Path.isAbsolute`: whether a path starts at the root.
* `Path.join`: a path below another.
* `Path.names`: the names of a path.
-/

namespace TileFlow.Path

/-- Whether a path starts at the root. -/
def isAbsolute (path : String) : Bool :=
  path.toList.head? == some '/'

/-- Whether a path ends in a slash, and so can only name a directory. -/
def endsInSlash (path : String) : Bool :=
  path.toList.getLast? == some '/'

/-- A path below another; one that starts at the root stands for itself. -/
def join (base path : String) : String :=
  if isAbsolute path then path
  else if base.isEmpty || endsInSlash base then base ++ path
  else base ++ "/" ++ path

/-- The names of a path, without the empty ones around doubled slashes. -/
def names (path : String) : List String :=
  (Text.split '/' path).filter (!·.isEmpty)

end TileFlow.Path
