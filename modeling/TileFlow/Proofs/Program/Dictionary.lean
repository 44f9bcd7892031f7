import TileFlow.Program.Dictionary

/-!
# Access to dictionaries

What a dictionary holds after an insertion, and what the dictionary of a list of bindings
holds. A dictionary is determined by the values under its names, since its entries are sorted.

## Main results

* `Dictionary.get?_insert`: an insertion changes the value under its own name only.
* `Dictionary.get?_ofList`: the last binding of a name counts.
* `Dictionary.ext_get?`: dictionaries with the same values under all names are equal.
* `Dictionary.ofList_entries`: a dictionary is the one of its own entries.
-/

namespace TileFlow

/-- The value that bindings give to a key, the last one of the key counting. -/
def lastBinding? (bindings : List (String × Attribute)) (key : String) : Option Attribute :=
  (bindings.reverse.find? (·.1 == key)).map (·.2)

/-- Bindings in front of others count where those leave a key unbound. -/
theorem lastBinding?_cons (b : String × Attribute) (bs : List (String × Attribute))
    (key : String) :
    lastBinding? (b :: bs) key =
      (lastBinding? bs key).or (if b.1 = key then some b.2 else none) := by
  simp only [lastBinding?, List.reverse_cons, List.find?_append]
  cases bs.reverse.find? (·.1 == key) with
  | none => by_cases h : b.1 = key <;> simp [h]
  | some c => simp

namespace Dictionary

/-- The value under a name in a list of entries. -/
def lookup? (entries : List (String × Attribute)) (key : String) : Option Attribute :=
  (entries.find? (·.1 == key)).map (·.2)

/-- A name is looked up in the first entry and then in the others. -/
theorem lookup?_cons (e : String × Attribute) (entries : List (String × Attribute))
    (key : String) :
    lookup? (e :: entries) key = if e.1 = key then some e.2 else lookup? entries key := by
  by_cases h : e.1 = key <;> simp [lookup?, h]

@[simp] theorem get?_empty (key : String) : empty.get? key = none := rfl

/-- An insertion into entries changes the value under its own name only. -/
theorem lookup?_insertEntry (key : String) (value : Attribute)
    (entries : List (String × Attribute)) (k : String) :
    lookup? (insertEntry key value entries) k =
      if key = k then some value else lookup? entries k := by
  induction entries with
  | nil => simp [insertEntry, lookup?_cons]
  | cons e rest ih =>
      simp only [insertEntry]
      split
      · rw [lookup?_cons]
      · split
        · rename_i heq
          rw [lookup?_cons, lookup?_cons, ← heq]
          by_cases h : key = k <;> simp [h]
        · rename_i hne
          rw [lookup?_cons, lookup?_cons, ih]
          by_cases h : e.1 = k
          · have : key ≠ k := fun hk => hne (hk.trans h.symm)
            simp [h, this]
          · simp [h]

/-- An erasure changes the value under its own name only. -/
theorem get?_erase_of_ne {d : Dictionary} {key k : String} (h : k ≠ key) :
    (d.erase key).get? k = d.get? k := by
  rw [get?, erase, get?, List.find?_filter]
  congr 2
  funext e
  by_cases he : e.1 = k
  · simp [he, h]
  · simp [he]

/-- An insertion changes the value under its own name only. -/
theorem get?_insert (d : Dictionary) (key : String) (value : Attribute) (k : String) :
    (d.insert key value).get? k = if key = k then some value else d.get? k :=
  lookup?_insertEntry key value d.entries k

/-- Bindings put into a dictionary one after the other. -/
theorem get?_foldl_insert (bindings : List (String × Attribute)) (d : Dictionary)
    (key : String) :
    (bindings.foldl (fun d b => d.insert b.1 b.2) d).get? key =
      (lastBinding? bindings key).or (d.get? key) := by
  induction bindings generalizing d with
  | nil => simp [lastBinding?]
  | cons b bs ih =>
      rw [List.foldl_cons, ih, get?_insert, lastBinding?_cons]
      by_cases h : b.1 = key <;> simp [h]

/-- In the dictionary of bindings the last binding of a name counts. -/
theorem get?_ofList (bindings : List (String × Attribute)) (key : String) :
    (ofList bindings).get? key = lastBinding? bindings key := by
  rw [ofList, get?_foldl_insert, get?_empty, Option.or_none]

/-- The entries of the dictionary of bindings are among these. -/
theorem mem_of_mem_ofList {bindings : List (String × Attribute)} {e : String × Attribute}
    (h : e ∈ (ofList bindings).entries) : e ∈ bindings := by
  have hfold : ∀ (bs : List (String × Attribute)) (d : Dictionary),
      e ∈ (bs.foldl (fun d b => d.insert b.1 b.2) d).entries → e ∈ bs ∨ e ∈ d.entries := by
    intro bs
    induction bs with
    | nil => exact fun d hd => .inr hd
    | cons b bs ih =>
        intro d hd
        rcases ih _ hd with hmem | hmem
        · exact .inl (List.mem_cons_of_mem _ hmem)
        · rcases mem_insertEntry hmem with rfl | hmem
          · exact .inl List.mem_cons_self
          · exact .inr hmem
  rcases hfold bindings empty h with hmem | hmem
  · exact hmem
  · cases hmem

/-! ### Extensionality -/

/-- A name below all names of sorted entries is not among them. -/
theorem lookup?_eq_none {entries : List (String × Attribute)} {key : String}
    (h : ∀ e ∈ entries, key < e.1) : lookup? entries key = none := by
  rw [lookup?, Option.map_eq_none_iff, List.find?_eq_none]
  intro e he heq
  exact absurd (eq_of_beq heq ▸ h e he) (String.lt_irrefl _)

/-- Sorted entries are determined by the values under all names. -/
theorem eq_of_lookup?_eq {l l' : List (String × Attribute)}
    (hl : l.Pairwise (fun a b => a.1 < b.1)) (hl' : l'.Pairwise (fun a b => a.1 < b.1))
    (h : ∀ key, lookup? l key = lookup? l' key) : l = l' := by
  induction l generalizing l' with
  | nil =>
      cases l' with
      | nil => rfl
      | cons b t =>
          have := h b.1
          simp [lookup?] at this
  | cons a s ih =>
      cases l' with
      | nil =>
          have := h a.1
          simp [lookup?] at this
      | cons b t =>
          obtain ⟨ha, hs⟩ := List.pairwise_cons.1 hl
          obtain ⟨hb, ht⟩ := List.pairwise_cons.1 hl'
          -- the smaller of two different heads would be missing on the other side
          have hab : a.1 = b.1 := by
            rcases Std.lt_trichotomy a.1 b.1 with hlt | heq | hgt
            · have hn : lookup? (b :: t) a.1 = none :=
                lookup?_eq_none fun e he => by
                  rcases List.mem_cons.1 he with rfl | he
                  · exact hlt
                  · exact String.lt_trans hlt (hb e he)
              rw [← h, lookup?_cons, if_pos rfl] at hn
              exact absurd hn (by simp)
            · exact heq
            · have hn : lookup? (a :: s) b.1 = none :=
                lookup?_eq_none fun e he => by
                  rcases List.mem_cons.1 he with rfl | he
                  · exact hgt
                  · exact String.lt_trans hgt (ha e he)
              rw [h, lookup?_cons, if_pos rfl] at hn
              exact absurd hn (by simp)
          have hval : a.2 = b.2 := by
            have := h a.1
            rwa [lookup?_cons, lookup?_cons, if_pos rfl, if_pos hab.symm, Option.some.injEq]
              at this
          obtain rfl : a = b := Prod.ext hab hval
          have hst : s = t := ih hs ht fun key => by
            by_cases hk : a.1 = key
            · subst hk
              rw [lookup?_eq_none ha, lookup?_eq_none hb]
            · have := h key
              rwa [lookup?_cons, lookup?_cons, if_neg hk, if_neg hk] at this
          rw [hst]

/-- Dictionaries with the same values under all names are equal. -/
theorem ext_get? {d e : Dictionary} (h : ∀ key, d.get? key = e.get? key) : d = e :=
  ext (eq_of_lookup?_eq d.sorted e.sorted h)

/-- In sorted entries the only binding of a name is its last one. -/
theorem lastBinding?_of_sorted {l : List (String × Attribute)}
    (hl : l.Pairwise (fun a b => a.1 < b.1)) (key : String) :
    lastBinding? l key = lookup? l key := by
  induction l with
  | nil => rfl
  | cons e rest ih =>
      obtain ⟨he, hrest⟩ := List.pairwise_cons.1 hl
      rw [lastBinding?_cons, ih hrest, lookup?_cons]
      by_cases hk : e.1 = key
      · subst hk
        simp [lookup?_eq_none he]
      · simp [hk]

/-- A dictionary is the one of its own entries. -/
theorem ofList_entries (d : Dictionary) : ofList d.entries = d :=
  ext_get? fun key => by rw [get?_ofList, lastBinding?_of_sorted d.sorted]; rfl

end Dictionary

end TileFlow
