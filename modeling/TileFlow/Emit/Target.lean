import TileFlow.Device.Placement
import TileFlow.Error
import TileFlow.Text.CharSet

/-!
# Targets

The architecture that a program is compiled for, and the entry points of its cores.

## Main definitions

* `Program.targetArch`: the descriptor of the first device.
* `validateArch`: a descriptor that names a known architecture.
* `backendTriple`: the target of the backend.
* `Program.coreSymbols`: the entry points of the cores.
-/

namespace TileFlow

namespace Program

/-- The descriptor of the first device of a program (`translate_to_target_arch`). -/
def targetArch (p : Program) : Except CompileError String :=
  match p.devices with
  | [] => .error (.emission "target-arch" .noDevice)
  | device :: _ => .ok (p.modelOf device).targetArch

/-- The entry points of the cores of a program, in program order (`core_functions` and
`core_tiles`). -/
def coreSymbols (p : Program) : List String :=
  ((p.findAll "aie.core").filterMap p.owningTile?).map (·.coreSymbol)

end Program

/-- Whether a list occurs in another without gaps. -/
def occursIn (pattern : List Char) : List Char → Bool
  | [] => pattern.isEmpty
  | c :: rest => pattern.isPrefixOf (c :: rest) || occursIn pattern rest

/-- A descriptor without its blank margins, if it names a generation of the array
(`validate_target_arch`). -/
def validateArch (arch : String) : Except CompileError String :=
  let trimmed := Text.trim arch
  if occursIn "AIE".toList trimmed.toList then .ok trimmed
  else .error (.unexpectedTargetArch trimmed)

/-- The target of the backend for a descriptor (`peano_target`). -/
def backendTriple (arch : String) : String :=
  Text.toLower arch ++ "-none-elf"

end TileFlow
