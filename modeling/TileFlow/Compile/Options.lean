import TileFlow.Text.Path

/-!
# Options of a compilation

## Main definitions

* `Options`: everything that a compilation is asked for.
* `Options.resolveWorkDir`: its working directory.
-/

namespace TileFlow

/-- Everything that a compilation is asked for (`DriverOptions`). -/
structure Options where
  input : String
  /-- The working directory; without one, it is named after the input. -/
  workDir : Option String := none
  sysroot : Option String := none
  peano : Option String := none
  hostTarget : String := "x86_64-linux-gnu"
  hostArgs : List String := []
  /-- The installation that holds the runtime libraries of host programs. -/
  installDir : String := "."
  verbose : Bool := false
  dryRun : Bool := false
  compile : Bool := true
  link : Bool := true
  compileHost : Bool := true
  unified : Bool := false
  generateIpu : Bool := false
  onlyGenerateIpu : Bool := false
  generateXclbin : Bool := false
  ipuInstsName : String := "ipu_insts.txt"
  xclbinName : String := "final.xclbin"
  kernelName : String := "MLIR_AIE"
  instanceName : String := "MLIRAIE"
  kernelId : String := "0x901"
  deriving DecidableEq, Repr, Inhabited

namespace Options

/-- The absolute path of the working directory, for the path of the current directory
(`resolve_work_dir`). -/
def resolveWorkDir (o : Options) (currentDirectory : String) : String :=
  Path.join currentDirectory (o.workDir.getD (o.input ++ ".prj"))

end Options

end TileFlow
