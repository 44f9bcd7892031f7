/-!
# The range of integers

Integers of a program are kept in 64 bits with a sign. Literals outside that range are
refused when they are read, and address arithmetic is checked against it. All other arithmetic
wraps around at the ends of the range.

## Main definitions

* `Fits`: an integer is in range.
* `checkedAdd`: a sum, when it is in range.
* `wrap`: an integer brought back into the range.
* `following`, `magnitude`: the next integer and the absolute value, in the range.
-/

namespace TileFlow.Integer

/-- An integer that 64 bits with a sign can hold. -/
def Fits (n : Int) : Prop :=
  -0x8000000000000000 ≤ n ∧ n < 0x8000000000000000

instance (n : Int) : Decidable (Fits n) :=
  inferInstanceAs (Decidable (_ ∧ _))

/-- The least integer in range. -/
def least : Int :=
  -0x8000000000000000

/-- The greatest integer in range. -/
def greatest : Int :=
  0x7fffffffffffffff

/-- An integer as 64 bits with a sign hold it: what leaves the range at
one end comes in again at the other. -/
def wrap (n : Int) : Int :=
  n.bmod 0x10000000000000000

/-- What is in range stays as it is. -/
theorem wrap_of_fits {n : Int} (h : Fits n) : wrap n = n :=
  Int.bmod_eq_of_le (by simp only [Fits] at h; omega) (by simp only [Fits] at h; omega)

/-- What is above the range by less than its size comes in at the lower end. -/
theorem wrap_of_ge {n : Int} (h : 0x8000000000000000 ≤ n) (h' : n < 0x10000000000000000) :
    wrap n = n - 0x10000000000000000 := by
  rw [wrap, ← Int.sub_bmod_right, Int.bmod_eq_of_le] <;> omega

/-- What is below the range by no more than its size comes in at the upper end. -/
theorem wrap_of_lt {n : Int} (h : n < -0x8000000000000000) (h' : -0x10000000000000000 < n) :
    wrap n = n + 0x10000000000000000 := by
  rw [wrap, ← Int.add_bmod_right, Int.bmod_eq_of_le] <;> omega

/-- The integer after one in range: behind the greatest comes the least. -/
def following (n : Int) : Int :=
  if n = greatest then least else n + 1

/-- The absolute value of an integer as 64 bits with a sign hold it (in `localize_locks`): that of
the least integer is the least integer again. -/
def magnitude (n : Int) : Int :=
  wrap n.natAbs

/-- The absolute value of an integer in range is in range, but for the least one. -/
theorem magnitude_of_fits {n : Int} (h : Fits n) (hn : n ≠ least) : magnitude n = n.natAbs :=
  wrap_of_fits (by simp only [Fits, least] at h hn ⊢; omega)

/-- The sum of two integers, when it is in range (in `assign_buffer_addresses`). -/
def checkedAdd (a b : Int) : Option Int :=
  if Fits (a + b) then some (a + b) else none

end TileFlow.Integer
