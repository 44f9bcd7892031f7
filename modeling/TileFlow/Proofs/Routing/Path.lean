import Mathlib.Data.List.Chain
import TileFlow.Routing.Path

/-!
# Paths between tiles

A path between two tiles leaves each tile but the last one in the direction in which the next tile
lies, and reaches the next tile by one step in that direction. The tiles that streams visit are
those of the walk that goes on from a tile by one step towards the last one as long as that is not
reached, along the columns first and along the rows after that. Which way a step goes is decided in
64 bits. As long as the coordinates differ by no more than that, the walk is a path, and no path
between the two tiles is shorter; otherwise it leads around the array, over the ends of the range of
coordinates.

## Main definitions

* `Direction.step`: the neighbouring tile in a direction.
* `IsPath`: the lists of tiles from one to another by such steps.
* `Tile.InReach`: tiles whose coordinates differ by no more than the range.
* `Tile.towards?`, `IsWalk`: one step towards a tile, and the walk that takes such steps to its end.
* `IsDimensionOrdered`: the shortest way with all steps along the columns before those along the
  rows.

## Main results

* `Tile.towards_induction`: what holds of a tile, and of each tile in reach from which a step leads
  to one of which it holds, holds of all tiles in reach.
* `Tile.pathTo_of_ne`: the first step of a path.
* `Tile.pathTo_isPath`: the tiles from one tile to another in reach are a path.
* `isWalk_iff`: the walk from one tile to another ends, whether or not it is in reach.
* `Tile.pathTo_isDimensionOrdered`: the tiles of the walk to a tile in reach are a shortest way in
  the order of the dimensions.
-/

namespace TileFlow

namespace Direction

/-- The neighbouring tile in a direction. -/
def step : Direction → Tile → Tile
  | north, t => ⟨t.column, t.row + 1⟩
  | south, t => ⟨t.column, t.row - 1⟩
  | east, t => ⟨t.column + 1, t.row⟩
  | west, t => ⟨t.column - 1, t.row⟩

/-- A direction is found by its name. -/
@[simp] theorem ofName?_name (d : Direction) : ofName? d.name = some d := by
  cases d <;> rfl

/-- The opposite of the opposite is the direction itself. -/
@[simp] theorem opposite_opposite (d : Direction) : d.opposite.opposite = d := by
  cases d <;> rfl

/-- A step and the opposite step lead back. -/
@[simp] theorem opposite_step_step (d : Direction) (t : Tile) : d.opposite.step (d.step t) = t := by
  cases d <;> simp [opposite, step]

/-- A step leads to another tile. -/
theorem step_ne (d : Direction) (t : Tile) : d.step t ≠ t := by
  obtain ⟨column, row⟩ := t
  cases d <;> simp only [step, ne_eq, Tile.mk.injEq] <;> omega

/-- Different directions have different names. -/
theorem name_injective {d e : Direction} (h : d.name = e.name) : d = e := by
  have := congrArg ofName? h
  simpa using this

/-- Different directions have different opposites. -/
theorem opposite_injective {d e : Direction} (h : d.opposite = e.opposite) : d = e := by
  rw [← opposite_opposite d, h, opposite_opposite]

/-- Steps in one direction from different tiles lead to different tiles. -/
theorem step_injective {d : Direction} {t u : Tile} (h : d.step t = d.step u) : t = u := by
  rw [← opposite_step_step d t, h, opposite_step_step]

/-- The neighbour in a direction lies in that direction. -/
@[simp] theorem between_step (d : Direction) (t : Tile) : between t (d.step t) = d := by
  obtain ⟨column, row⟩ := t
  cases d with
  | north => simp [between, step, Int.lt_succ]
  | south =>
      have : ¬row < row - 1 := by omega
      simp [between, step, this]
  | east => simp [between, step, Int.lt_succ]
  | west =>
      have hle : ¬column < column - 1 := by omega
      have hlt : column - 1 < column := by omega
      simp [between, step, hle, hlt]

end Direction

/-- The lists of tiles that lead from one tile to another by steps to neighbours. -/
inductive IsPath : Tile → Tile → List Tile → Prop
  | single (t : Tile) : IsPath t t [t]
  | cons (d : Direction) {t u : Tile} {path : List Tile} (h : IsPath (d.step t) u path) :
    IsPath t u (t :: path)

namespace IsPath

variable {a b t u : Tile} {path : List Tile}

/-- A path starts with its first tile. -/
theorem eq_cons (h : IsPath t u path) : ∃ rest, path = t :: rest := by
  cases h with
  | single => exact ⟨[], rfl⟩
  | cons d h => exact ⟨_, rfl⟩

/-- A path ends with its last tile. -/
theorem getLast? (h : IsPath t u path) : path.getLast? = some u := by
  induction h with
  | single => rfl
  | cons d h ih =>
      obtain ⟨rest, rfl⟩ := h.eq_cons
      rw [List.getLast?_cons_cons]
      exact ih

/-- Each tile of a path but the first one is the neighbour of the tile before it, in the direction
in which it lies from there. -/
theorem isChain (h : IsPath t u path) :
    path.IsChain fun t u => u = (Direction.between t u).step t := by
  induction h with
  | single => exact .singleton _
  | cons d h ih =>
      obtain ⟨rest, rfl⟩ := h.eq_cons
      exact .cons_cons (by rw [Direction.between_step]) ih

/-- A path has a tile for each step that is needed, and one more. -/
theorem le_length (h : IsPath a b path) :
    (b.column - a.column).natAbs + (b.row - a.row).natAbs + 1 ≤ path.length := by
  induction h with
  | single => simp
  | @cons d t u path h ih =>
      rw [List.length_cons]
      cases d <;> simp only [Direction.step] at ih <;> omega

end IsPath

/-! ### One step after the other -/

/-- There is nothing to go from a coordinate to itself. -/
@[simp] theorem straightTo_self (a : Int) : straightTo a a = [] := by
  simp [straightTo]

/-- Upwards, the next coordinate comes first. -/
theorem straightTo_of_lt {a b : Int} (h : a < b) :
    straightTo a b = (a + 1) :: straightTo (a + 1) b := by
  obtain ⟨m, hm⟩ : ∃ m, (b - a).natAbs = m + 1 := ⟨(b - a).natAbs - 1, by omega⟩
  have hm' : (b - (a + 1)).natAbs = m := by omega
  rw [straightTo, hm, List.range_succ_eq_map, List.map_cons, List.map_map,
    Int.sign_eq_one_of_pos (by omega), straightTo, hm', List.cons.injEq]
  refine ⟨by omega, List.map_congr_left fun i hi => ?_⟩
  rw [List.mem_range] at hi
  rw [Int.sign_eq_one_of_pos (by omega), Function.comp_apply]
  omega

/-- Downwards, the previous coordinate comes first. -/
theorem straightTo_of_gt {a b : Int} (h : b < a) :
    straightTo a b = (a - 1) :: straightTo (a - 1) b := by
  obtain ⟨m, hm⟩ : ∃ m, (b - a).natAbs = m + 1 := ⟨(b - a).natAbs - 1, by omega⟩
  have hm' : (b - (a - 1)).natAbs = m := by omega
  rw [straightTo, hm, List.range_succ_eq_map, List.map_cons, List.map_map,
    Int.sign_eq_neg_one_of_neg (by omega), straightTo, hm', List.cons.injEq]
  refine ⟨by omega, List.map_congr_left fun i hi => ?_⟩
  rw [List.mem_range] at hi
  rw [Int.sign_eq_neg_one_of_neg (by omega), Function.comp_apply]
  omega

/-- A stretch stays between its two ends. -/
theorem mem_straightTo {a b c : Int} (h : c ∈ straightTo a b) : min a b ≤ c ∧ c ≤ max a b := by
  obtain ⟨i, hi, rfl⟩ := List.mem_map.1 h
  rw [List.mem_range] at hi
  rcases Int.lt_trichotomy a b with hlt | rfl | hgt
  · rw [Int.sign_eq_one_of_pos (by omega)]
    omega
  · simp at hi
  · rw [Int.sign_eq_neg_one_of_neg (by omega)]
    omega

/-- A stretch is as long as its two ends are apart. -/
@[simp] theorem length_straightTo (a b : Int) : (straightTo a b).length = (b - a).natAbs := by
  rw [straightTo, List.length_map, List.length_range]

/-- The straight way ends where it leads. -/
theorem getLast?_straightTo (a b : Int) : (a :: straightTo a b).getLast? = some b := by
  rcases Int.lt_trichotomy a b with h | rfl | h
  · obtain ⟨m, hm⟩ : ∃ m, (b - a).natAbs = m + 1 := ⟨(b - a).natAbs - 1, by omega⟩
    rw [straightTo, hm, List.range_succ, List.map_append, ← List.cons_append, List.map_singleton,
      List.getLast?_concat, Int.sign_eq_one_of_pos (by omega), Option.some.injEq]
    omega
  · simp
  · obtain ⟨m, hm⟩ : ∃ m, (b - a).natAbs = m + 1 := ⟨(b - a).natAbs - 1, by omega⟩
    rw [straightTo, hm, List.range_succ, List.map_append, ← List.cons_append, List.map_singleton,
      List.getLast?_concat, Int.sign_eq_neg_one_of_neg (by omega), Option.some.injEq]
    omega

/-- As long as the difference is in range, the way is the straight one. -/
theorem stepsTo_of_fits {a b : Int} (h : Integer.Fits (b - a)) : stepsTo a b = straightTo a b :=
  if_pos h

/-- The way ends where it leads, straight or around. -/
theorem getLast?_stepsTo (a b : Int) : (a :: stepsTo a b).getLast? = some b := by
  rw [stepsTo]
  split
  · exact getLast?_straightTo a b
  · split <;> rw [← List.cons_append, List.getLast?_append_cons, getLast?_straightTo]

/-- The integer after `a` on the way to `b`, each operation done in 64 bits. -/
def stepFrom (a b : Int) : Int :=
  Integer.wrap (a + (Integer.wrap (b - a)).sign)

/-- The way to a greater integer takes one step after the other. It goes upwards if the difference is
in range. -/
theorem stepsTo_of_lt {a b : Int} (ha : Integer.Fits a) (hb : Integer.Fits b) (hlt : a < b) :
    Integer.Fits (stepFrom a b) ∧ stepsTo a b = stepFrom a b :: stepsTo (stepFrom a b) b := by
  simp only [Integer.Fits] at ha hb
  rw [stepFrom]
  by_cases hfits : Integer.Fits (b - a)
  · -- Upwards, and `b` stays in reach.
    have hfits' : Integer.Fits (b - (a + 1)) := by simp only [Integer.Fits] at hfits ⊢; omega
    have hstep : Integer.Fits (a + 1) := by simp only [Integer.Fits]; omega
    rw [Integer.wrap_of_fits hfits, Int.sign_eq_one_of_pos (by omega), Integer.wrap_of_fits hstep,
      stepsTo_of_fits hfits, stepsTo_of_fits hfits', ← straightTo_of_lt hlt]
    exact ⟨hstep, rfl⟩
  · -- Downwards, away from `b`, until the least integer is reached.
    have hge : 0x8000000000000000 ≤ b - a := by simp only [Integer.Fits] at hfits; omega
    rw [Integer.wrap_of_ge hge (by omega), Int.sign_eq_neg_one_of_neg (by omega)]
    by_cases hleast : a = Integer.least
    · have hwrap : Integer.wrap (a + -1) = Integer.greatest := by rw [hleast]; decide
      have hfits' : Integer.Fits (b - Integer.greatest) := by
        simp only [Integer.Fits, Integer.greatest]; omega
      rw [hwrap, stepsTo, if_neg hfits, if_pos hlt, hleast, straightTo_self, List.nil_append,
        stepsTo_of_fits hfits']
      exact ⟨by decide, rfl⟩
    · have hlow : Integer.least < a := by simp only [Integer.least] at hleast ⊢; omega
      have hstep : Integer.Fits (a + -1) := by
        simp only [Integer.Fits, Integer.least] at hlow ⊢; omega
      have hfits' : ¬ Integer.Fits (b - (a + -1)) := by simp only [Integer.Fits]; omega
      rw [Integer.wrap_of_fits hstep, stepsTo, if_neg hfits, if_pos hlt, stepsTo, if_neg hfits',
        if_pos (by omega), straightTo_of_gt hlow]
      exact ⟨hstep, rfl⟩

/-- The way to a smaller integer takes one step after the other. It goes downwards if the difference
is in range. -/
theorem stepsTo_of_gt {a b : Int} (ha : Integer.Fits a) (hb : Integer.Fits b) (hgt : b < a) :
    Integer.Fits (stepFrom a b) ∧ stepsTo a b = stepFrom a b :: stepsTo (stepFrom a b) b := by
  simp only [Integer.Fits] at ha hb
  rw [stepFrom]
  by_cases hfits : Integer.Fits (b - a)
  · have hfits' : Integer.Fits (b - (a + -1)) := by simp only [Integer.Fits] at hfits ⊢; omega
    have hstep : Integer.Fits (a + -1) := by simp only [Integer.Fits]; omega
    rw [Integer.wrap_of_fits hfits, Int.sign_eq_neg_one_of_neg (by omega),
      Integer.wrap_of_fits hstep, stepsTo_of_fits hfits, stepsTo_of_fits hfits',
      straightTo_of_gt hgt]
    exact ⟨hstep, rfl⟩
  · -- Upwards, away from `b`, until the greatest integer is reached.
    have hlt : b - a < -0x8000000000000000 := by simp only [Integer.Fits] at hfits; omega
    rw [Integer.wrap_of_lt hlt (by omega), Int.sign_eq_one_of_pos (by omega)]
    by_cases hgreatest : a = Integer.greatest
    · have hwrap : Integer.wrap (a + 1) = Integer.least := by rw [hgreatest]; decide
      have hfits' : Integer.Fits (b - Integer.least) := by
        simp only [Integer.Fits, Integer.least, Integer.greatest] at *; omega
      rw [hwrap, stepsTo, if_neg hfits, if_neg (by omega), hgreatest, straightTo_self,
        List.nil_append, stepsTo_of_fits hfits']
      exact ⟨by decide, rfl⟩
    · have hhigh : a < Integer.greatest := by simp only [Integer.greatest] at hgreatest ⊢; omega
      have hstep : Integer.Fits (a + 1) := by
        simp only [Integer.Fits, Integer.greatest] at hhigh ⊢; omega
      have hfits' : ¬ Integer.Fits (b - (a + 1)) := by simp only [Integer.Fits]; omega
      rw [Integer.wrap_of_fits hstep, stepsTo, if_neg hfits, if_neg (by omega), stepsTo,
        if_neg hfits', if_neg (by omega), straightTo_of_lt hhigh]
      exact ⟨hstep, rfl⟩

/-- Between integers in range, the way consists of the steps that are taken one after the other. -/
theorem stepsTo_of_ne {a b : Int} (ha : Integer.Fits a) (hb : Integer.Fits b) (h : a ≠ b) :
    Integer.Fits (stepFrom a b) ∧ stepsTo a b = stepFrom a b :: stepsTo (stepFrom a b) b :=
  (Int.lt_or_gt_of_ne h).elim (stepsTo_of_lt ha hb) (stepsTo_of_gt ha hb)

namespace Tile

variable {a b t : Tile} {path : List Tile}

/-- Whether the coordinates of two tiles differ by no more than the range of integers. -/
structure InReach (a b : Tile) : Prop where
  column : Integer.Fits (b.column - a.column)
  row : Integer.Fits (b.row - a.row)

instance (a b : Tile) : Decidable (a.InReach b) :=
  decidable_of_iff (Integer.Fits (b.column - a.column) ∧ Integer.Fits (b.row - a.row))
    ⟨fun h => ⟨h.1, h.2⟩, fun h => ⟨h.1, h.2⟩⟩

/-- A step towards a tile does not lead out of reach. -/
theorem InReach.step (h : a.InReach b) (hne : a ≠ b) :
    ((Direction.between a b).step a).InReach b := by
  have hcolumn := h.column
  have hrow := h.row
  simp only [Integer.Fits] at hcolumn hrow
  rw [Direction.between]
  split_ifs with heast hwest hnorth
  · exact ⟨by simp only [Direction.step, Integer.Fits]; omega, h.row⟩
  · exact ⟨by simp only [Direction.step, Integer.Fits]; omega, h.row⟩
  · exact ⟨h.column, by simp only [Direction.step, Integer.Fits]; omega⟩
  · -- The columns agree, so that the rows differ.
    have hrows : a.row ≠ b.row := fun heq =>
      hne ((Tile.mk.injEq ..).mpr ⟨by omega, heq⟩)
    exact ⟨h.column, by simp only [Direction.step, Integer.Fits]; omega⟩

/-- The path from a tile to itself is that tile. -/
@[simp] theorem pathTo_self (a : Tile) : a.pathTo a = [a] := by
  simp [pathTo, stepsTo, Integer.Fits]

/-- A path ends with its last tile. -/
theorem getLast?_pathTo (a b : Tile) : (a.pathTo b).getLast? = some b := by
  obtain ⟨column, row⟩ := a
  obtain ⟨column', row'⟩ := b
  have hcolumn := congrArg (Option.map fun c => (⟨c, row⟩ : Tile)) (getLast?_stepsTo column column')
  have hrow := congrArg (Option.map fun r => (⟨column', r⟩ : Tile)) (getLast?_stepsTo row row')
  rw [← List.getLast?_map, List.map_cons] at hcolumn hrow
  rw [pathTo]
  rcases hsteps : stepsTo row row' with _ | ⟨r, rows⟩
  · rw [hsteps] at hrow
    simp only [List.map_nil, List.append_nil] at hrow ⊢
    exact hcolumn.trans hrow
  · rw [hsteps, List.map_cons, List.getLast?_cons_cons] at hrow
    rw [List.map_cons, ← List.cons_append, List.getLast?_append_cons, hrow]
    rfl

/-- To a tile in reach, a path is straight along the columns and straight along the rows. -/
theorem pathTo_of_inReach (h : a.InReach b) :
    a.pathTo b = a :: ((straightTo a.column b.column).map (⟨·, a.row⟩) ++
      (straightTo a.row b.row).map (⟨b.column, ·⟩)) := by
  rw [pathTo, stepsTo_of_fits h.column, stepsTo_of_fits h.row]

/-- A path goes on from the neighbour in the direction of its last tile. -/
theorem pathTo_of_ne (hreach : a.InReach b) (h : a ≠ b) :
    a.pathTo b = a :: ((Direction.between a b).step a).pathTo b := by
  have hnext := hreach.step h
  rw [pathTo_of_inReach hreach, pathTo_of_inReach hnext]
  obtain ⟨column, row⟩ := a
  obtain ⟨column', row'⟩ := b
  rw [Direction.between]
  split
  · rename_i hlt
    simp [Direction.step, straightTo_of_lt hlt]
  · split
    · rename_i hgt
      simp [Direction.step, straightTo_of_gt hgt]
    · obtain rfl : column = column' := by dsimp only at *; omega
      split
      · rename_i hlt
        simp [Direction.step, straightTo_of_lt hlt]
      · have hgt : row' < row := by
          have : row ≠ row' := fun hrow => h (by rw [hrow])
          dsimp only at *
          omega
        simp [Direction.step, straightTo_of_gt hgt]

/-- A path has a tile for each step, and one more. -/
theorem length_pathTo (h : a.InReach b) :
    (a.pathTo b).length = (b.column - a.column).natAbs + (b.row - a.row).natAbs + 1 := by
  simp [pathTo_of_inReach h]

/-- The tiles of a path lie in the rectangle that its two ends span. -/
theorem mem_pathTo (hreach : a.InReach b) (h : t ∈ a.pathTo b) :
    (min a.column b.column ≤ t.column ∧ t.column ≤ max a.column b.column) ∧
      min a.row b.row ≤ t.row ∧ t.row ≤ max a.row b.row := by
  rw [pathTo_of_inReach hreach, List.mem_cons, List.mem_append, List.mem_map, List.mem_map] at h
  rcases h with rfl | ⟨column, hcolumn, rfl⟩ | ⟨row, hrow, rfl⟩
  · omega
  · have := mem_straightTo hcolumn
    dsimp only
    omega
  · have := mem_straightTo hrow
    dsimp only
    omega

/-! ### The way to a tile -/

/-- Tiles that differ do so in a coordinate. -/
theorem column_ne_or_row_ne (h : a ≠ b) : a.column ≠ b.column ∨ a.row ≠ b.row := by
  obtain ⟨column, row⟩ := a
  obtain ⟨column', row'⟩ := b
  by_cases hcolumn : column = column'
  · exact .inr fun hrow => h (by rw [show column = column' from hcolumn, show row = row' from hrow])
  · exact .inl hcolumn

/-- The next tile on the way to `b`, unless it is reached: along the columns as long as these
differ, and then along the rows. -/
def towards? (b a : Tile) : Option Tile :=
  if a.column ≠ b.column then some ⟨stepFrom a.column b.column, a.row⟩
  else if a.row ≠ b.row then some ⟨a.column, stepFrom a.row b.row⟩
  else none

/-- At the destination there is no next step. -/
@[simp] theorem towards?_self (b : Tile) : towards? b b = none := by
  simp [towards?]

/-- Whether the coordinates of a tile are in range. -/
structure Fits (a : Tile) : Prop where
  column : Integer.Fits a.column
  row : Integer.Fits a.row

/-- Before another tile is reached there is a next one, in range as well, from which the path goes
on. -/
theorem towards?_of_ne (ha : a.Fits) (hb : b.Fits) (h : a ≠ b) :
    ∃ t, towards? b a = some t ∧ t.Fits ∧ a.pathTo b = a :: t.pathTo b := by
  rw [towards?]
  by_cases hcolumn : a.column = b.column
  · have hrow := (column_ne_or_row_ne h).resolve_left (not_not_intro hcolumn)
    obtain ⟨hfits, hsteps⟩ := stepsTo_of_ne ha.row hb.row hrow
    refine ⟨⟨a.column, stepFrom a.row b.row⟩, by rw [if_neg (not_not_intro hcolumn), if_pos hrow],
      ⟨ha.column, hfits⟩, ?_⟩
    rw [pathTo, pathTo, hsteps, hcolumn, stepsTo_of_fits (by simp [Integer.Fits]), straightTo_self]
    rfl
  · obtain ⟨hfits, hsteps⟩ := stepsTo_of_ne ha.column hb.column hcolumn
    refine ⟨⟨stepFrom a.column b.column, a.row⟩, if_pos hcolumn, ⟨hfits, ha.row⟩, ?_⟩
    rw [pathTo, pathTo, hsteps]
    rfl

/-- A step towards a tile comes nearer to it. -/
theorem distance_between (h : a ≠ b) :
    (((Direction.between a b).step a).column - b.column).natAbs +
      (((Direction.between a b).step a).row - b.row).natAbs + 1 =
    (a.column - b.column).natAbs + (a.row - b.row).natAbs := by
  have hne := column_ne_or_row_ne h
  rw [Direction.between]
  split
  · simp only [Direction.step]
    omega
  · split
    · simp only [Direction.step]
      omega
    · split <;> simp only [Direction.step] <;> omega

/-- What holds of a tile, and of every other tile in reach if it holds after one step towards that
tile, holds of all tiles in reach: the number of steps to go decreases. -/
theorem towards_induction {b : Tile} {motive : Tile → Prop} (stop : motive b)
    (go : ∀ a, a.InReach b → a ≠ b → motive ((Direction.between a b).step a) → motive a) (a : Tile)
    (hreach : a.InReach b) : motive a := by
  generalize hn : (a.column - b.column).natAbs + (a.row - b.row).natAbs = n
  induction n generalizing a with
  | zero =>
      have heq : a = b := by
        apply Decidable.byContradiction
        intro hne
        have := column_ne_or_row_ne hne
        omega
      exact heq ▸ stop
  | succ n ih =>
      have hne : a ≠ b := by
        rintro rfl
        simp at hn
      have := distance_between hne
      exact go a hreach hne (ih _ (hreach.step hne) (by omega))

/-- The tiles from one tile to another in reach are a path from the one to the other. -/
theorem pathTo_isPath (h : a.InReach b) : IsPath a b (a.pathTo b) := by
  refine towards_induction (motive := fun a => IsPath a b (a.pathTo b)) ?stop ?go a h
  case stop =>
    rw [pathTo_self]
    exact .single b
  case go =>
    intro a hreach hne ih
    rw [pathTo_of_ne hreach hne]
    exact .cons _ ih

/-- A path comes nearer to its end with every step, so it does not come back to a tile. -/
theorem nodup_pathTo (h : a.InReach b) : (a.pathTo b).Nodup := by
  refine towards_induction (motive := fun a => (a.pathTo b).Nodup) ?stop ?go a h
  case stop => simp
  case go =>
    intro a hreach hne ih
    rw [pathTo_of_ne hreach hne, List.nodup_cons]
    refine ⟨fun hmem => ?_, ih⟩
    have hinside := mem_pathTo (hreach.step hne) hmem
    have hdistance := distance_between hne
    omega

/-- The directions of the steps of a path. -/
def directions (path : List Tile) : List Direction :=
  path.zipWith Direction.between path.tail

/-- The directions of the steps from one coordinate to another, where `d` leads upwards and `e`
downwards. -/
def stretch (d e : Direction) (x y : Int) : List Direction :=
  List.replicate (y - x).natAbs (if x < y then d else e)

/-- There is no direction to go from a coordinate to itself. -/
@[simp] theorem stretch_self (d e : Direction) (x : Int) : stretch d e x x = [] := by
  simp [stretch]

/-- Upwards, a stretch begins with its first direction. -/
theorem stretch_of_lt {d e : Direction} {x y : Int} (h : x < y) :
    stretch d e x y = d :: stretch d e (x + 1) y := by
  have hn : (y - x).natAbs = (y - (x + 1)).natAbs + 1 := by omega
  rw [stretch, if_pos h, hn, List.replicate_succ, stretch]
  by_cases hlast : x + 1 < y
  · rw [if_pos hlast]
  · have hzero : (y - (x + 1)).natAbs = 0 := by omega
    rw [hzero, List.replicate_zero, List.replicate_zero]

/-- Downwards, a stretch begins with its second direction. -/
theorem stretch_of_gt {d e : Direction} {x y : Int} (h : y < x) :
    stretch d e x y = e :: stretch d e (x - 1) y := by
  have hn : (y - x).natAbs = (y - (x - 1)).natAbs + 1 := by omega
  rw [stretch, if_neg (by omega), hn, List.replicate_succ, stretch, if_neg (by omega)]

/-- The directions of a path begin with the one towards the destination. -/
theorem directions_pathTo_of_ne (hreach : a.InReach b) (h : a ≠ b) : directions (a.pathTo b) =
    Direction.between a b :: directions (((Direction.between a b).step a).pathTo b) := by
  obtain ⟨rest, hrest⟩ := (pathTo_isPath (hreach.step h)).eq_cons
  rw [pathTo_of_ne hreach h, hrest, directions, List.tail_cons, List.zipWith_cons_cons,
    Direction.between_step]
  rfl

/-- The directions in which a path goes: one along the columns up to the last column, and one along
the rows from there. -/
theorem directions_pathTo (h : a.InReach b) :
    directions (a.pathTo b) =
      stretch .east .west a.column b.column ++ stretch .north .south a.row b.row := by
  refine towards_induction (motive := fun a => directions (a.pathTo b) =
    stretch .east .west a.column b.column ++ stretch .north .south a.row b.row) ?stop ?go a h
  case stop => simp [directions]
  case go =>
    intro a hreach hne ih
    have hor := column_ne_or_row_ne hne
    rw [directions_pathTo_of_ne hreach hne, ih, Direction.between]
    split
    · rename_i hlt
      rw [stretch_of_lt hlt]
      rfl
    · split
      · rename_i hgt
        rw [stretch_of_gt hgt]
        rfl
      · -- The columns agree, so only the second stretch is left.
        have hcolumn : a.column = b.column := by omega
        rw [hcolumn, stretch_self]
        split
        · rename_i hlt
          rw [stretch_of_lt hlt, Direction.step, hcolumn, stretch_self]
          rfl
        · have hgt : b.row < a.row := by omega
          rw [stretch_of_gt hgt, Direction.step, hcolumn, stretch_self]
          rfl

end Tile

/-! ### The order of the dimensions -/

/-- A shortest way from one tile to another, with all steps along the columns before those along the
rows. -/
structure IsDimensionOrdered (a b : Tile) (path : List Tile) : Prop where
  starts : path.head? = some a
  ends : path.getLast? = some b
  /-- There is a tile for each step that is needed, and one more. -/
  length : path.length = (b.column - a.column).natAbs + (b.row - a.row).natAbs + 1
  /-- No other path is shorter. -/
  shortest : ∀ other, IsPath a b other → path.length ≤ other.length
  /-- Consecutive tiles are one step apart, in the direction in which the second one lies. -/
  steps : path.IsChain fun t u => u = (Direction.between t u).step t
  /-- All steps along the columns go the same way, and so do all steps along the rows after them. -/
  ordered : Tile.directions path = List.replicate (b.column - a.column).natAbs
      (if a.column < b.column then Direction.east else Direction.west) ++
    List.replicate (b.row - a.row).natAbs
      (if a.row < b.row then Direction.north else Direction.south)
  /-- No tile occurs twice. -/
  nodup : path.Nodup
  /-- The tiles lie in the rectangle that the two ends span. -/
  inside : ∀ t ∈ path, (min a.column b.column ≤ t.column ∧ t.column ≤ max a.column b.column) ∧
    min a.row b.row ≤ t.row ∧ t.row ≤ max a.row b.row

/-- The walk to `b`: from a tile to the next one on the way, up to the first tile without a next
one. -/
inductive IsWalk (b : Tile) : Tile → List Tile → Prop
  | stop {t : Tile} (h : Tile.towards? b t = none) : IsWalk b t [t]
  | go {t u : Tile} {path : List Tile} (h : Tile.towards? b t = some u) (hwalk : IsWalk b u path) :
    IsWalk b t (t :: path)

/-- The walk from one tile to another comes to an end, and the path to the tile is all that it
visits.
-/
theorem isWalk_iff {a b : Tile} {path : List Tile} (ha : a.Fits) (hb : b.Fits) :
    IsWalk b a path ↔ path = a.pathTo b := by
  constructor
  · intro h
    induction h with
    | @stop t h =>
        obtain rfl : t = b := by
          by_contra hne
          obtain ⟨u, hu, -⟩ := Tile.towards?_of_ne ha hb hne
          rw [h] at hu
          cases hu
        rw [Tile.pathTo_self]
    | @go t u path h _ ih =>
        have hne : t ≠ b := by
          rintro rfl
          rw [Tile.towards?_self] at h
          cases h
        obtain ⟨u', hu, hfits, hpath⟩ := Tile.towards?_of_ne ha hb hne
        obtain rfl : u' = u := Option.some.inj (hu.symm.trans h)
        rw [ih hfits, hpath]
  · rintro rfl
    -- Each step leaves one tile less to visit.
    generalize hn : (a.pathTo b).length = n
    induction n generalizing a with
    | zero => simp [Tile.pathTo] at hn
    | succ n ih =>
        by_cases hne : a = b
        · subst hne
          rw [Tile.pathTo_self]
          exact .stop (Tile.towards?_self a)
        · obtain ⟨u, hu, hfits, hpath⟩ := Tile.towards?_of_ne ha hb hne
          rw [hpath, List.length_cons, Nat.succ_inj] at hn
          rw [hpath]
          exact .go hu (ih hfits hn)

/-- The walk from one tile to another, which goes along the columns as long as these differ and
along the rows after that, comes to an end, and what it visits is the path between the two tiles. If
their coordinates differ by no more than the range of integers, the path leads from the one to the
other with as few steps as there can be, each to a neighbour, all steps along the columns before
those along the rows, without coming to a tile twice and without leaving the rectangle between the
two. -/
theorem Tile.pathTo_isDimensionOrdered {a b : Tile} (ha : a.Fits) (hb : b.Fits) :
    (∀ path, IsWalk b a path ↔ path = a.pathTo b) ∧
      (a.InReach b → IsDimensionOrdered a b (a.pathTo b)) := by
  refine ⟨fun path => isWalk_iff ha hb, fun hreach => ?_⟩
  have hpath := pathTo_isPath hreach
  constructor
  case starts => rfl
  case ends => exact hpath.getLast?
  case length => exact length_pathTo hreach
  case shortest =>
    intro other hother
    rw [length_pathTo hreach]
    exact hother.le_length
  case steps => exact hpath.isChain
  case ordered => exact directions_pathTo hreach
  case nodup => exact nodup_pathTo hreach
  case inside => exact fun t ht => mem_pathTo hreach ht

/-- From the first row of an array to a tile that is two columns and one row away. -/
theorem Tile.pathTo_isDimensionOrdered_turn :
    (∀ path, IsWalk ⟨0, 1⟩ ⟨2, 0⟩ path ↔ path = [⟨2, 0⟩, ⟨1, 0⟩, ⟨0, 0⟩, ⟨0, 1⟩]) ∧
      IsDimensionOrdered ⟨2, 0⟩ ⟨0, 1⟩ [⟨2, 0⟩, ⟨1, 0⟩, ⟨0, 0⟩, ⟨0, 1⟩] := by
  obtain ⟨hwalk, hordered⟩ :=
    pathTo_isDimensionOrdered (a := ⟨2, 0⟩) (b := ⟨0, 1⟩) ⟨by decide, by decide⟩
      ⟨by decide, by decide⟩
  exact ⟨hwalk, hordered ⟨by decide, by decide⟩⟩

/-- Between the ends of the range of columns the walk takes one step, over the end. -/
example : Tile.pathTo ⟨Integer.least, 2⟩ ⟨Integer.greatest, 2⟩ =
    [⟨Integer.least, 2⟩, ⟨Integer.greatest, 2⟩] := by
  decide

end TileFlow
