import TileFlow.Tool.Session

/-!
# Building the host program

The host program is compiled against the generated glue and the runtime libraries of its
target. It is only built if there is something to build it from.

## Main definitions

* `HostBuild`: what the build depends on.
* `HostBuild.compilerArgs`: the arguments of the compiler.
* `HostBuild.run`: the build.
-/

namespace TileFlow

/-- What the build of a host program depends on (`HostBuild`). -/
structure HostBuild where
  hostTarget : String
  installDir : String
  workDir : String
  targetArch : String
  hostArgs : List String := []
  sysroot : Option String := none
  aietoolsRoot : Option String := none
  deriving DecidableEq, Repr

namespace HostBuild

/-- A path below some directories, one in the other. -/
def below (base : String) (names : List String) : String :=
  names.foldl Path.join base

/-- The runtime libraries for the processor that the target names first (`runtime_dir`). -/
def runtimeDir (b : HostBuild) : String :=
  let processor := String.ofList (b.hostTarget.toList.takeWhile (· != '-'))
  below b.installDir ["runtime_lib", processor]

/-- The arguments that a sysroot adds (in `clang_args`). One for a 64-bit ARM target also holds the
compiler's own headers. -/
def sysrootArgs (b : HostBuild) : List String :=
  match b.sysroot with
  | none => []
  | some root =>
    s!"--sysroot={root}" ::
      if b.hostTarget = "aarch64-linux-gnu" then ["--gcc-toolchain=" ++ Path.join root "usr"]
      else []

/-- The number under which the runtime knows the architecture (in `clang_args`). -/
def archNumber (b : HostBuild) : String :=
  if b.targetArch = "AIE2" then "20" else "10"

/-- The arguments of the compiler (`clang_args`). -/
def compilerArgs (b : HostBuild) : List String :=
  let engine := below b.runtimeDir ["xaiengine"]
  ["-std=c++11"] ++
    (if b.hostTarget.isEmpty then [] else [s!"--target={b.hostTarget}"]) ++
    b.sysrootArgs ++
    [below b.runtimeDir ["test_lib", "lib", "libmemory_allocator_ion.a"],
      "-I" ++ below engine ["include"],
      "-L" ++ below engine ["lib"]] ++
    (b.aietoolsRoot.map fun root => "-L" ++ below root ["lib", "lnx64.so"]).toList ++
    ["-I" ++ b.workDir, "-fuse-ld=lld", "-lm", "-lxaiengine", "-D__AIEARCH__=" ++ b.archNumber] ++
    b.hostArgs

/-- Builds the host program, and says whether there was one to build (`run`). -/
def run (b : HostBuild) (setting : Setting) : Session Bool := do
  if b.hostArgs.isEmpty then return false
  Session.runChecked setting "clang++" b.compilerArgs
  return true

end HostBuild

end TileFlow
