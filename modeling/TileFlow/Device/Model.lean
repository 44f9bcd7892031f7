import TileFlow.Text.Case

/-!
# Device families

The families of tile arrays a program can be placed on: their size, the rows that hold memory
tiles, and what a tile offers. A family that is not known has no bounds and the resources of
the first generation.

## Main definitions

* `Tile`: the coordinates of a tile.
* `Generation`: the generation of the tile architecture.
* `DeviceModel`: one family.
* `DeviceModel.lookup`: the family of a name.
-/

namespace TileFlow

/-- The coordinates of a tile (`TileLoc`). -/
structure Tile where
  column : Int
  row : Int
  deriving DecidableEq, Repr, Inhabited

/-- The coordinates in parentheses. -/
def Tile.render (t : Tile) : String :=
  s!"({t.column}, {t.row})"

/-- The symbol of the function that a core on a tile becomes (`core_symbol`). -/
def Tile.coreSymbol (t : Tile) : String :=
  s!"core_{t.column}_{t.row}"

/-- The generations of the tile architecture (`AieArch`). -/
inductive Generation where
  | first
  | second
  deriving DecidableEq, Repr

/-- A family of devices (`DeviceModel`). The generation is `none` if the family is not known. -/
structure DeviceModel where
  name : String
  generation : Option Generation
  columns : Int
  rows : Int
  /-- The rows whose tiles hold memory only. -/
  memoryRows : List Int
  deriving DecidableEq, Repr

namespace DeviceModel

/-- The family with a name (`lookup`). -/
def lookup (name : String) : DeviceModel :=
  match name with
  | "xcvc1902" => ⟨name, some .first, 50, 9, []⟩
  | "xcve2302" => ⟨name, some .second, 17, 4, [1]⟩
  | "xcve2802" => ⟨name, some .second, 38, 11, [1, 2]⟩
  | "ipu" => ⟨name, some .second, 5, 6, [1]⟩
  | _ => ⟨name, none, 0, 0, []⟩

/-- The descriptor of the target architecture (`target_arch`); for an unknown family, its name in
upper case. -/
def targetArch (m : DeviceModel) : String :=
  match m.generation with
  | some .first => "AIE"
  | some .second => "AIE2"
  | none => Text.toUpper m.name

/-- Whether a row holds the interface to the host (`is_shim`). -/
def isShim (_m : DeviceModel) (row : Int) : Bool :=
  row == 0

/-- Whether a row holds memory tiles (`is_mem_tile`). -/
def isMemoryTile (m : DeviceModel) (row : Int) : Bool :=
  m.memoryRows.contains row

/-- Whether a tile is part of the array (`contains`). -/
def contains (m : DeviceModel) (t : Tile) : Bool :=
  m.generation.isNone ||
    (0 ≤ t.column && t.column < m.columns && 0 ≤ t.row && t.row < m.rows)

/-- The number of locks of a tile in a row (`lock_count`). -/
def lockCount (m : DeviceModel) (row : Int) : Nat :=
  if m.isMemoryTile row then 64 else 16

/-- The bytes of data memory of a tile in a row (`data_memory_size`). -/
def dataMemorySize (m : DeviceModel) (row : Int) : Int :=
  match m.generation with
  | some .second => if m.isMemoryTile row then 512 * 1024 else 64 * 1024
  | _ => 32 * 1024

/-- The bytes at the bottom of data memory that the stack of a core takes (`stack_size`). -/
def stackSize (_m : DeviceModel) : Int :=
  0x400

/-- The intrinsics that acquire and release a lock (`lock_intrinsics`). -/
def lockIntrinsics (m : DeviceModel) : String × String :=
  match m.generation with
  | some .second => ("llvm.aie2.acquire", "llvm.aie2.release")
  | _ => ("llvm.aie.lock.acquire.reg", "llvm.aie.lock.release.reg")

end DeviceModel

end TileFlow
