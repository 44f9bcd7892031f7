/-!
# Lists of texts around a separator

A text is cut at every occurrence of a separator, so that `n` separators give `n + 1` parts,
and the parts are put together again with the separator between them.

## Main definitions

* `split`: the parts of a text between the occurrences of a character.
* `joinWith`: parts with a character between them.

## Main results

* `splitChars_joinChars`: parts without the separator survive being put together and cut.
-/

namespace TileFlow.Text

/-- A character before the first of some parts. -/
def consFirst (c : Char) : List (List Char) → List (List Char)
  | [] => [[c]]
  | part :: rest => (c :: part) :: rest

/-- The parts between the occurrences of a separator. -/
def splitChars (separator : Char) : List Char → List (List Char)
  | [] => [[]]
  | c :: rest =>
    if c = separator then [] :: splitChars separator rest
    else consFirst c (splitChars separator rest)

theorem splitChars_cons (separator c : Char) (rest : List Char) :
    splitChars separator (c :: rest) =
      if c = separator then [] :: splitChars separator rest
      else consFirst c (splitChars separator rest) := rfl

/-- The parts of a text between the occurrences of a separator. -/
def split (separator : Char) (s : String) : List String :=
  (splitChars separator s.toList).map String.ofList

/-- Parts with a separator between them. -/
def joinChars (separator : Char) : List (List Char) → List Char
  | [] => []
  | [part] => part
  | part :: rest => part ++ separator :: joinChars separator rest

/-- Texts with a separator between them. -/
def joinWith (separator : Char) (parts : List String) : String :=
  String.ofList (joinChars separator (parts.map String.toList))

/-- A text without separator is one part. -/
theorem splitChars_of_notMem {separator : Char} {part : List Char} (h : separator ∉ part) :
    splitChars separator part = [part] := by
  induction part with
  | nil => rfl
  | cons c rest ih =>
    have hc : c ≠ separator := fun e => h (e ▸ List.mem_cons_self)
    have hr : separator ∉ rest := fun m => h (List.mem_cons_of_mem _ m)
    simp [splitChars_cons, hc, ih hr, consFirst]

/-- The separator ends the first part. -/
theorem splitChars_append {separator : Char} {part : List Char} (h : separator ∉ part)
    (rest : List Char) :
    splitChars separator (part ++ separator :: rest) = part :: splitChars separator rest := by
  induction part with
  | nil => simp [splitChars_cons]
  | cons c tail ih =>
    have hc : c ≠ separator := fun e => h (e ▸ List.mem_cons_self)
    have hr : separator ∉ tail := fun m => h (List.mem_cons_of_mem _ m)
    simp [splitChars_cons, hc, ih hr, consFirst]

/-- Parts without the separator survive being put together and cut. -/
theorem splitChars_joinChars {separator : Char} {parts : List (List Char)} (hne : parts ≠ [])
    (h : ∀ part ∈ parts, separator ∉ part) :
    splitChars separator (joinChars separator parts) = parts := by
  induction parts with
  | nil => exact absurd rfl hne
  | cons part rest ih =>
    cases rest with
    | nil => exact splitChars_of_notMem (h part List.mem_cons_self)
    | cons next others =>
      rw [joinChars, splitChars_append (h part List.mem_cons_self),
        ih (List.cons_ne_nil _ _) fun p m => h p (List.mem_cons_of_mem _ m)]
      exact List.cons_ne_nil _ _

end TileFlow.Text
