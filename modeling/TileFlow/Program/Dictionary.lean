import TileFlow.Program.Attribute

/-!
# Attribute dictionaries

Named attributes, at most one under each name, in ascending order of their names.

## Main definitions

* `Dictionary`: the names and values, sorted by name.
* `Dictionary.get?`, `Dictionary.insert`, `Dictionary.erase`: access by name.
* `Dictionary.ofList`: a dictionary from bindings, where the last one of a name counts.

## Main results

* `Dictionary.ext`: dictionaries with the same entries are equal.
-/

namespace TileFlow

/-- Named attributes in ascending order of their names (in `Operation`). -/
structure Dictionary where
  entries : List (String × Attribute)
  sorted : entries.Pairwise (fun a b => a.1 < b.1)

namespace Dictionary

/-- Dictionaries with the same entries are equal. -/
theorem ext {d e : Dictionary} (h : d.entries = e.entries) : d = e := by
  cases d; cases e; cases h; rfl

instance : DecidableEq Dictionary := fun d e =>
  decidable_of_iff (d.entries = e.entries) ⟨ext, fun h => h ▸ rfl⟩

/-- The dictionary without entries. -/
def empty : Dictionary := ⟨[], .nil⟩

instance : Inhabited Dictionary := ⟨empty⟩

/-- Whether there are no entries. -/
def isEmpty (d : Dictionary) : Bool :=
  d.entries.isEmpty

/-- The value under a name. -/
def get? (d : Dictionary) (key : String) : Option Attribute :=
  (d.entries.find? (·.1 == key)).map (·.2)

/-- Sorted entries with a value put under a name. -/
def insertEntry (key : String) (value : Attribute) :
    List (String × Attribute) → List (String × Attribute)
  | [] => [(key, value)]
  | e :: rest =>
    if key < e.1 then (key, value) :: e :: rest
    else if key = e.1 then (key, value) :: rest
    else e :: insertEntry key value rest

/-- An entry after an insertion is the new one or one of the old. -/
theorem mem_insertEntry {key : String} {value : Attribute} {x : String × Attribute}
    {l : List (String × Attribute)} (h : x ∈ insertEntry key value l) :
    x = (key, value) ∨ x ∈ l := by
  induction l with
  | nil => simpa [insertEntry] using h
  | cons e rest ih =>
    simp only [insertEntry] at h
    split at h
    · simpa using h
    · split at h
      · rcases List.mem_cons.1 h with h | h
        · exact .inl h
        · exact .inr (List.mem_cons_of_mem _ h)
      · rcases List.mem_cons.1 h with h | h
        · exact .inr (h ▸ List.mem_cons_self)
        · exact (ih h).imp id (List.mem_cons_of_mem _)

/-- Insertion keeps the entries sorted. -/
theorem pairwise_insertEntry {key : String} {value : Attribute}
    {l : List (String × Attribute)} (h : l.Pairwise (fun a b => a.1 < b.1)) :
    (insertEntry key value l).Pairwise (fun a b => a.1 < b.1) := by
  induction l with
  | nil => simp [insertEntry]
  | cons e rest ih =>
    obtain ⟨he, hrest⟩ := List.pairwise_cons.1 h
    simp only [insertEntry]
    split
    · rename_i hlt
      refine List.pairwise_cons.2 ⟨fun x hx => ?_, h⟩
      rcases List.mem_cons.1 hx with rfl | hx
      · exact hlt
      · exact String.lt_trans hlt (he x hx)
    · rename_i hge
      split
      · rename_i heq
        exact List.pairwise_cons.2 ⟨fun x hx => heq ▸ he x hx, hrest⟩
      · rename_i hne
        refine List.pairwise_cons.2 ⟨fun x hx => ?_, ih hrest⟩
        rcases mem_insertEntry hx with rfl | hx
        · exact Std.lt_of_le_of_ne (String.not_lt.1 hge) fun h => hne h.symm
        · exact he x hx

/-- The dictionary with a value put under a name, in place of any old one. -/
def insert (d : Dictionary) (key : String) (value : Attribute) : Dictionary :=
  ⟨insertEntry key value d.entries, pairwise_insertEntry d.sorted⟩

/-- The dictionary without a name. -/
def erase (d : Dictionary) (key : String) : Dictionary :=
  ⟨d.entries.filter (·.1 != key), d.sorted.sublist List.filter_sublist⟩

/-- The dictionary of a list of bindings, where the last one of a name counts. -/
def ofList (bindings : List (String × Attribute)) : Dictionary :=
  bindings.foldl (fun d b => d.insert b.1 b.2) empty

/-- The written form of the entries, without braces. -/
def render (d : Dictionary) : String :=
  commaSeparated (d.entries.map fun e => e.1 ++ " = " ++ e.2.render)

end Dictionary

end TileFlow
