import TileFlow.Device.Model
import TileFlow.Integer

/-!
# Paths between tiles

Streams travel along the columns first and along the rows after that. Each step leaves a tile
in one of four directions and enters the next tile from the opposite side.

## Main definitions

* `Direction`: the four sides of a tile, with their names and numbers of channels.
* `Tile.pathTo`: the tiles from one to another.
-/

namespace TileFlow

/-- The four sides of a tile (`Port`). -/
inductive Direction where
  | north
  | south
  | east
  | west
  deriving DecidableEq, Repr

namespace Direction

/-- The name of a direction (`name`). -/
def name : Direction → String
  | north => "North"
  | south => "South"
  | east => "East"
  | west => "West"

/-- The direction with a name (`from_name`). -/
def ofName? : String → Option Direction
  | "North" => some north
  | "South" => some south
  | "East" => some east
  | "West" => some west
  | _ => none

/-- The opposite side (`opposite`). -/
def opposite : Direction → Direction
  | north => south
  | south => north
  | east => west
  | west => east

/-- The number of outgoing channels in a direction (`capacity`). -/
def capacity : Direction → Int
  | north => 6
  | _ => 4

/-- The direction from a tile to one that differs from it (`between`). -/
def between (a b : Tile) : Direction :=
  if a.column < b.column then east
  else if b.column < a.column then west
  else if a.row < b.row then north
  else south

end Direction

/-- The integers after `a` on the straight way to `b`, which is the last one (in `xy_path`). -/
def straightTo (a b : Int) : List Int :=
  (List.range (b - a).natAbs).map fun (i : Nat) => a + (b - a).sign * (i + 1)

/-- The integers after `a` on the way to `b`, which is the last one (in `xy_path`). Each step goes
by the sign of the difference that is left, as 64 bits hold it. If the difference is out of range,
its sign is the wrong one, and the way leads around: to the end of the range behind `a`, and on from
the other end. -/
def stepsTo (a b : Int) : List Int :=
  if Integer.Fits (b - a) then straightTo a b
  else if a < b then straightTo a Integer.least ++ Integer.greatest :: straightTo Integer.greatest b
  else straightTo a Integer.greatest ++ Integer.least :: straightTo Integer.least b

/-- The tiles from one to another, both included: first to the right column, then to the right
row (`xy_path`). -/
def Tile.pathTo (a b : Tile) : List Tile :=
  a :: ((stepsTo a.column b.column).map (⟨·, a.row⟩) ++
    (stepsTo a.row b.row).map (⟨b.column, ·⟩))

end TileFlow
