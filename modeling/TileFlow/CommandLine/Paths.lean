import TileFlow.CommandLine.Run

/-!
# The paths that a call looks at

A call of the program only looks at a few paths. Whoever runs it on a disk brings these into a
tree of files first, and takes the changes back afterwards.

## Main definitions

* `requestedPaths`: the input, the working directory and the outputs.
* `hostPaths`, `toolchainPaths`: where tools may be.
-/

namespace TileFlow.CommandLine

/-- The names of the backend's tools. -/
def backendTools : List String := ["opt", "llc", "clang"]

/-- The names of all tools that a compilation may start or look for. -/
def toolNames : List String := backendTools ++ ["clang++", "xclbinutil", "v++"]

/-- The names of the outputs that do not depend on the options. -/
def outputNames : List String :=
  ["input.ll", "input.opt.ll", "input.o", "aie_inc.cpp", "aie_control.cpp", "kernels.json",
    "mem_topology.json", "aie_partition.json"]

/-- Where the tools of a search path may be. -/
def searchedPaths (searchPath : List String) : List String :=
  searchPath.flatMap fun entry => toolNames.map (Path.join entry)

/-- Where the tools of a backend installation may be. -/
def backendPaths (root : String) : List String :=
  backendTools.flatMap fun tool => [Path.join (Path.join root "bin") tool, Path.join root tool]

/-- Where the tools of a vendor installation may be. -/
def vendorPaths (root : String) : List String :=
  [Path.join root "aietools", Path.join root "cardano"]

/-- The options that some arguments come to, if they ask for a compilation. -/
def requestedOptions? (installation : String) (args : List String) : Option Options :=
  match Arguments.parse installation args with
  | .ok (.compile options _ _) => some options
  | _ => none

/-- The input, the working directory and the outputs of a call, for the path of the current
directory. -/
def requestedPaths (installation currentDirectory : String) (args : List String) :
    List String :=
  (requestedOptions? installation args).toList.flatMap fun options =>
    let workDir := options.resolveWorkDir currentDirectory
    let outputs := outputNames ++ [options.ipuInstsName, options.xclbinName]
    options.input :: workDir :: outputs.map (Path.join workDir)

/-- Where the variables and the arguments say that tools are. -/
def hostPaths (host : HostEnvironment) (installation : String) (args : List String) :
    List String :=
  let peano := (requestedOptions? installation args).bind (·.peano)
  searchedPaths host.searchPath ++ host.vitis.toList.flatMap vendorPaths ++
    (peano.or host.peano).toList.flatMap backendPaths

/-- Where the tools of a toolchain may be. -/
def toolchainPaths (c : Toolchain) : List String :=
  c.vitisRoot.toList.flatMap vendorPaths ++ searchedPaths c.searchPath

end TileFlow.CommandLine
