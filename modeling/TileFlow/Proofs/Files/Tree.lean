import Mathlib.Data.List.Basic
import TileFlow.Files.Basic

/-!
# Where paths lead

A path that leads somewhere leads to a location that can be told from its names alone: whether the
directories on the way are there only decides whether it leads there at all. A change to what is no
directory therefore does not redirect any path.

## Main definitions

* `Location.step`, `FileTree.destination`: where names and paths lead.
* `FileTree.bytesAt?`: what the file at a location holds.
* `FileTree.ChangedAt`: a change to what is at one location.
* `FileTree.Free`: locations that can be written to.
* `FileTree.Keeps`: nothing is changed at some locations.

## Main results

* `FileTree.place_eq_some`: a new entry is put at the destination of its path.
* `FileTree.ChangedAt.place`: a change to a file redirects no path.
* `FileTree.ChangedAt.bytesAt?`: a change to a file leaves the others alone.
* `FileTree.openEmpty_file`: what it means to open a path for writing.
-/

namespace TileFlow

/-- Where a name leads from a location. -/
def Location.step (l : Location) (name : String) : Location :=
  if name = "." then l else if name = ".." then l.dropLast else l ++ [name]

namespace FileTree

variable {t t' t'' : FileTree} {l l' : Location} {id : FileId} {directory : Location}
  {path : String}

/-- Where a path leads if it leads anywhere. -/
def destination (directory : Location) (path : String) : Location :=
  (Path.names path).foldl Location.step (start directory path)

/-- What the file at a location holds, if there is one. -/
def bytesAt? (t : FileTree) (l : Location) : Option Bytes :=
  (t.snapshot? l).join

/-! ### Entries and contents -/

@[simp] theorem node?_nil (t : FileTree) : t.node? [] = some .directory := rfl

/-- What is found after one place was taken out of a list of nodes. -/
theorem lookup_filter_ne (nodes : List (Location × Node)) (l l' : Location) :
    (nodes.filter (·.1 != l)).lookup l' = if l' = l then none else nodes.lookup l' := by
  induction nodes with
  | nil => simp
  | cons entry rest ih =>
      obtain ⟨k, node⟩ := entry
      by_cases hk : k = l
      · subst hk
        by_cases hl : l' = k
        · simp [hl] at ih ⊢
          exact ih
        · simp [ih, hl, List.lookup_cons, beq_false_of_ne hl]
      · by_cases hl : l' = l
        · subst hl
          simp [ih, hk, List.lookup_cons, beq_false_of_ne (Ne.symm hk)]
        · simp [ih, hk, hl, List.lookup_cons]

/-- The node at each place after one was put. -/
theorem node?_put (t : FileTree) (l l' : Location) (node : Node) (hl : l ≠ []) :
    (t.put l node).node? l' = if l' = l then some node else t.node? l' := by
  by_cases h : l' = l
  · subst h
    simp [node?, put, hl]
  · simp [node?, put, List.lookup_cons, lookup_filter_ne, h, beq_false_of_ne h]

/-- The node at each place after one was erased. -/
theorem node?_erase (t : FileTree) (l l' : Location) (hl : l ≠ []) :
    (t.erase l).node? l' = if l' = l then none else t.node? l' := by
  by_cases h : l' = l
  · subst h
    simp [node?, erase, lookup_filter_ne, hl]
  · simp [node?, erase, lookup_filter_ne, h]

@[simp] theorem contents_put (t : FileTree) (l : Location) (node : Node) :
    (t.put l node).contents = t.contents := rfl

@[simp] theorem contents_erase (t : FileTree) (l : Location) :
    (t.erase l).contents = t.contents := rfl

@[simp] theorem node?_writeAt (t : FileTree) (id : FileId) (offset : Nat) (bytes : Bytes)
    (l : Location) : (t.writeAt id offset bytes).node? l = t.node? l := rfl

/-- Emptying a file leaves the nodes. -/
@[simp] theorem node?_empty (t : FileTree) (o : Outlet) (l : Location) :
    (t.empty o).node? l = t.node? l := by
  cases o <;> rfl

/-- The bytes at a place that names a file. -/
theorem bytesAt?_of_file {x : Bool} {bytes : Bytes} (h : t.node? l = some (.file id x))
    (hb : t.contents[id]? = some bytes) : t.bytesAt? l = some bytes := by
  simp [bytesAt?, snapshot?, h, contentsOf, hb]

/-- Nothing is read where nothing is. -/
theorem bytesAt?_of_none (h : t.node? l = none) : t.bytesAt? l = none := by
  simp [bytesAt?, snapshot?, h]

/-- Nothing is read from a directory. -/
theorem bytesAt?_of_directory (h : t.node? l = some .directory) : t.bytesAt? l = none := by
  simp [bytesAt?, snapshot?, h]

/-- What is held at a location depends on its entry and on the file of the entry. -/
theorem bytesAt?_congr (hn : t'.node? l = t.node? l)
    (hc : ∀ id x, t.node? l = some (.file id x) → t'.contents[id]? = t.contents[id]?) :
    t'.bytesAt? l = t.bytesAt? l := by
  rcases h : t.node? l with _ | _ | ⟨id, x⟩ | d
  · simp [bytesAt?, snapshot?, hn, h]
  · simp [bytesAt?, snapshot?, hn, h]
  · simp [bytesAt?, snapshot?, hn, h, contentsOf, hc id x h]
  · simp [bytesAt?, snapshot?, hn, h]

/-! ### Paths -/

/-- Names are looked up in directories. -/
theorem lookupError?_eq_none {node : Option Node} {name : String} :
    lookupError? node name = none ↔ node = some .directory ∧ nameError? name = none := by
  rcases node with _ | _ | _ | _ <;> simp [lookupError?]

/-- A first name is looked up, and the others from where it leads. -/
theorem walk_cons (name : String) (rest : List String) : t.walk l (name :: rest) =
    match lookupError? (t.node? l) name with
    | some e => .error e
    | none => t.walk (l.step name) rest := by
  rw [walk, Location.step]
  rcases lookupError? (t.node? l) name with _ | e
  · dsimp only
    split_ifs <;> rfl
  · rfl

/-- One name of a path is walked when it can be looked up. -/
theorem walk_cons_ok {name : String} {rest : List String} :
    t.walk l (name :: rest) = .ok l' ↔
      lookupError? (t.node? l) name = none ∧ t.walk (l.step name) rest = .ok l' := by
  rw [walk_cons]
  rcases lookupError? (t.node? l) name with _ | e <;> simp

/-- Names that lead somewhere lead where they say. -/
theorem walk_eq_ok {names : List String} (h : t.walk l names = .ok l') :
    names.foldl Location.step l = l' := by
  induction names generalizing l with
  | nil => simpa [walk] using h
  | cons name rest ih => exact ih (walk_cons_ok.1 h).2

/-- Names lead somewhere as long as the directories stay. -/
theorem walk_of_directories {names : List String}
    (hd : ∀ l, t.node? l = some .directory → t'.node? l = some .directory)
    (h : t.walk l names = .ok l') : t'.walk l names = .ok l' := by
  induction names generalizing l with
  | nil => exact h
  | cons name rest ih =>
      obtain ⟨hname, hrest⟩ := walk_cons_ok.1 h
      obtain ⟨hl, hname⟩ := lookupError?_eq_none.1 hname
      exact walk_cons_ok.2 ⟨lookupError?_eq_none.2 ⟨hd l hl, hname⟩, ih hrest⟩

/-- What `place` finds for a new entry: a directory that the names but the last one lead to. -/
theorem place_eq_some : t.place directory path = .ok (some l) ↔
    pathError? path = none ∧ ∃ parent last, (Path.names path).getLast? = some last ∧
      t.walk (start directory path) (Path.names path).dropLast = .ok parent ∧
      lookupError? (t.node? parent) last = none ∧ last ≠ "." ∧ last ≠ ".." ∧
      l = parent ++ [last] := by
  rw [place]
  rcases pathError? path with _ | e
  · rcases (Path.names path).getLast? with _ | last
    · simp
    · rcases t.walk (start directory path) (Path.names path).dropLast with e | parent
      · simp
      · by_cases hlook : lookupError? (t.node? parent) last = none
        · by_cases hdot : last = "." ∨ last = ".."
          · simp only [hlook, if_pos hdot]
            rcases hdot with rfl | rfl <;> simp
          · simp only [hlook, if_neg hdot]
            simp [hlook, not_or.1 hdot, eq_comm]
        · obtain ⟨e, he⟩ := Option.ne_none_iff_exists'.1 hlook
          simp [he]
  · simp

/-- A new entry is put at the destination of its path. -/
theorem place_destination (h : t.place directory path = .ok (some l)) :
    l = destination directory path ∧ l ≠ [] := by
  obtain ⟨-, parent, last, hlast, hwalk, -, hdot, hdots, rfl⟩ := place_eq_some.1 h
  refine ⟨?_, by simp⟩
  have hnames := List.dropLast_append_getLast? last hlast
  rw [destination, ← hnames, List.foldl_append, walk_eq_ok hwalk]
  simp [Location.step, hdot, hdots]

/-- A new entry is put where it was as long as the directories stay. -/
theorem place_of_directories
    (hd : ∀ l, t.node? l = some .directory → t'.node? l = some .directory)
    (h : t.place directory path = .ok (some l)) : t'.place directory path = .ok (some l) := by
  obtain ⟨herr, parent, last, hlast, hwalk, hlook, hrest⟩ := place_eq_some.1 h
  refine place_eq_some.2 ⟨herr, parent, last, hlast, walk_of_directories hd hwalk, ?_, hrest⟩
  obtain ⟨hparent, hname⟩ := lookupError?_eq_none.1 hlook
  exact lookupError?_eq_none.2 ⟨hd parent hparent, hname⟩

/-! ### Changes -/

/-- Only what is at a location that is no directory has changed: its file, and which one it is. -/
structure ChangedAt (l : Location) (t t' : FileTree) : Prop where
  notDirectory : t.node? l ≠ some .directory
  node : ∀ l', l' ≠ l → t'.node? l' = t.node? l'
  contents : ∀ i < t.contents.size, (∀ x, t.node? l ≠ some (.file i x)) →
    t'.contents[i]? = t.contents[i]?
  size : t.contents.size ≤ t'.contents.size
  entry : t'.node? l = t.node? l ∨ t'.node? l = none ∨
    ∃ i x, t'.node? l = some (.file i x) ∧ t.contents.size ≤ i ∧ i < t'.contents.size

namespace ChangedAt

/-- A tree without a directory at the place is changed at most there. -/
theorem refl (hl : t.node? l ≠ some .directory) : ChangedAt l t t :=
  ⟨hl, fun _ _ => rfl, fun _ _ _ => rfl, Nat.le_refl _, .inl rfl⟩

/-- A change at one place makes no directory. -/
theorem directories (h : ChangedAt l t t') (l' : Location) (hl' : t.node? l' = some .directory) :
    t'.node? l' = some .directory := by
  have hne : l' ≠ l := by
    rintro rfl
    exact h.notDirectory hl'
  rw [h.node l' hne, hl']

/-- A change to what is no directory redirects no path. -/
theorem place (h : ChangedAt l t t') (hp : t.place directory path = .ok (some l')) :
    t'.place directory path = .ok (some l') :=
  place_of_directories h.directories hp

/-- Changes to one location, one after the other. -/
theorem trans (h : ChangedAt l t t') (h' : ChangedAt l t' t'') : ChangedAt l t t'' where
  notDirectory := h.notDirectory
  node l' hl := (h'.node l' hl).trans (h.node l' hl)
  contents i hi hfile := by
    refine (h'.contents i (Nat.lt_of_lt_of_le hi h.size) fun x hx => ?_).trans
      (h.contents i hi hfile)
    rcases h.entry with he | he | ⟨k, y, he, hk, -⟩
    · exact hfile x (he.symm.trans hx)
    · simp [he] at hx
    · simp only [he, Option.some.injEq, Node.file.injEq] at hx
      exact absurd hi (Nat.not_lt.2 (hx.1 ▸ hk))
  size := Nat.le_trans h.size h'.size
  entry := by
    rcases h'.entry with he' | he' | ⟨k, y, he', hk, hk'⟩
    · rcases h.entry with he | he | ⟨k, y, he, hk, hk'⟩
      · exact .inl (he'.trans he)
      · exact .inr (.inl (he'.trans he))
      · exact .inr (.inr ⟨k, y, he'.trans he, hk, Nat.lt_of_lt_of_le hk' h'.size⟩)
    · exact .inr (.inl he')
    · exact .inr (.inr ⟨k, y, he', Nat.le_trans h.size hk, hk'⟩)

/-- Writing into a file changes its place only. -/
theorem writeAt {x : Bool} (hl : t.node? l = some (.file id x)) (offset : Nat) (bytes : Bytes) :
    ChangedAt l t (t.writeAt id offset bytes) where
  notDirectory := by simp [hl]
  node _ _ := rfl
  contents i _ hfile := by
    have hne : id ≠ i := by
      rintro rfl
      exact hfile x hl
    simp [FileTree.writeAt, Array.getElem?_modify, hne]
  size := by simp [FileTree.writeAt]
  entry := .inl rfl

/-- Erasing a file changes its place only. -/
theorem erase (hl : t.node? l ≠ some .directory) : ChangedAt l t (t.erase l) := by
  have hne : l ≠ [] := by
    rintro rfl
    exact hl rfl
  exact {
    notDirectory := hl
    node l' hl' := by simp [node?_erase _ _ _ hne, hl']
    contents _ _ _ := rfl
    size := Nat.le_refl _
    entry := .inr (.inl (by simp [node?_erase _ _ _ hne])) }

end ChangedAt

/-- What is at some locations can be written to, one file at each. -/
structure Free (ls : List Location) (t : FileTree) : Prop where
  noDevice : ∀ l ∈ ls, ∀ d, t.node? l ≠ some (.device d)
  known : ∀ l ∈ ls, ∀ id x, t.node? l = some (.file id x) → id < t.contents.size
  apart : ∀ l ∈ ls, ∀ l' ∈ ls, ∀ id x x', t.node? l = some (.file id x) →
    t.node? l' = some (.file id x') → l = l'

variable {ls : List Location}

/-- A change to one of the locations leaves them free. -/
theorem ChangedAt.free (h : ChangedAt l t t') (hf : t.Free ls) (hl : l ∈ ls) : t'.Free ls := by
  have entry (k) (hk : k ∈ ls) : t'.node? k = t.node? k ∨ t'.node? k = none ∨
      k = l ∧ ∃ i x, t'.node? k = some (.file i x) ∧ t.contents.size ≤ i ∧
        i < t'.contents.size := by
    by_cases hkl : k = l
    · subst hkl
      exact h.entry.imp_right (Or.imp_right fun he => ⟨rfl, he⟩)
    · exact .inl (h.node k hkl)
  refine ⟨fun k hk d hd => ?_, fun k hk id x hx => ?_, fun k hk k' hk' id x x' hx hx' => ?_⟩
  · rcases entry k hk with he | he | ⟨-, i, y, he, -⟩ <;> rw [he] at hd
    · exact hf.noDevice k hk d hd
    · cases hd
    · cases hd
  · rcases entry k hk with he | he | ⟨-, i, y, he, -, hi⟩ <;> rw [he] at hx
    · exact Nat.lt_of_lt_of_le (hf.known k hk id x hx) h.size
    · cases hx
    · cases hx
      exact hi
  · rcases entry k hk with he | he | ⟨rfl, i, y, he, hi, -⟩ <;> rw [he] at hx
    · rcases entry k' hk' with he' | he' | ⟨rfl, i', y', he', hi', -⟩ <;> rw [he'] at hx'
      · exact hf.apart k hk k' hk' id x x' hx hx'
      · cases hx'
      · cases hx'
        exact absurd (hf.known k hk _ _ hx) (Nat.not_lt.2 hi')
    · cases hx
    · cases hx
      rcases entry k' hk' with he' | he' | ⟨rfl, -⟩
      · rw [he'] at hx'
        exact absurd (hf.known k' hk' _ _ hx') (Nat.not_lt.2 hi)
      · rw [he'] at hx'
        cases hx'
      · rfl

/-- A file elsewhere keeps its contents. -/
theorem ChangedAt.contents_of_free (h : ChangedAt l t t') (hf : t.Free ls) (hl : l ∈ ls)
    (hl' : l' ∈ ls) (hne : l' ≠ l) {x : Bool} (hx : t.node? l' = some (.file id x)) :
    t'.contents[id]? = t.contents[id]? :=
  h.contents id (hf.known l' hl' id x hx) fun _ hy => hne (hf.apart l' hl' l hl id _ _ hx hy)

/-- A location elsewhere holds what it held. -/
theorem ChangedAt.bytesAt? (h : ChangedAt l t t') (hf : t.Free ls) (hl : l ∈ ls)
    (hl' : l' ∈ ls) (hne : l' ≠ l) : t'.bytesAt? l' = t.bytesAt? l' :=
  bytesAt?_congr (h.node l' hne) fun _ _ hx => h.contents_of_free hf hl hl' hne hx

/-- Nothing has changed at some locations: each has the entry that it had, and a file there holds
what it held. -/
def Keeps (ls : List Location) (t t' : FileTree) : Prop :=
  ∀ l ∈ ls, t'.node? l = t.node? l ∧ ∀ id x bytes, t.node? l = some (.file id x) →
    t.contents[id]? = some bytes → t'.contents[id]? = some bytes

/-- A tree keeps all its places. -/
theorem Keeps.refl (ls : List Location) (t : FileTree) : Keeps ls t t :=
  fun _ _ => ⟨rfl, fun _ _ _ _ h => h⟩

/-- Keeping places is transitive. -/
theorem Keeps.trans (h : Keeps ls t t') (h' : Keeps ls t' t'') : Keeps ls t t'' := fun l hl =>
  ⟨(h' l hl).1.trans (h l hl).1, fun id x bytes hx hb =>
    (h' l hl).2 id x bytes ((h l hl).1.trans hx) ((h l hl).2 id x bytes hx hb)⟩

/-- What is read at a place that is kept and whose file no other place names. -/
theorem Keeps.bytesAt? (h : Keeps ls t t') (hf : t.Free ls) (hl : l ∈ ls) :
    t'.bytesAt? l = t.bytesAt? l :=
  bytesAt?_congr (h l hl).1 fun id x hx => by
    have hid := Array.getElem?_eq_getElem (hf.known l hl id x hx)
    rw [(h l hl).2 id x _ hx hid, hid]

/-- Places that are kept stay free of other names. -/
theorem Keeps.free (h : Keeps ls t t') (hf : t.Free ls) : t'.Free ls where
  noDevice l hl d := by
    rw [(h l hl).1]
    exact hf.noDevice l hl d
  known l hl id x hx := by
    rw [(h l hl).1] at hx
    have hid := Array.getElem?_eq_getElem (hf.known l hl id x hx)
    exact (Array.getElem?_eq_some_iff.1 ((h l hl).2 id x _ hx hid)).1
  apart l hl l' hl' id x x' hx hx' := by
    rw [(h l hl).1] at hx
    rw [(h l' hl').1] at hx'
    exact hf.apart l hl l' hl' id x x' hx hx'

/-- Directories were made where there was nothing. -/
structure AddsDirectories (t t' : FileTree) : Prop where
  node : ∀ l, t'.node? l = t.node? l ∨ t.node? l = none ∧ t'.node? l = some .directory
  contents : t'.contents = t.contents

namespace AddsDirectories

/-- Adding directories adds no file. -/
theorem file (h : AddsDirectories t t') {x : Bool} (hx : t'.node? l = some (.file id x)) :
    t.node? l = some (.file id x) := by
  rcases h.node l with hl | ⟨-, hl⟩
  · rw [← hl, hx]
  · rw [hl] at hx
    cases hx

/-- Adding directories leaves what is read anywhere. -/
theorem bytesAt? (h : AddsDirectories t t') (l : Location) : t'.bytesAt? l = t.bytesAt? l := by
  rcases h.node l with hl | ⟨hnone, hl⟩
  · exact bytesAt?_congr hl fun _ _ _ => by rw [h.contents]
  · rw [bytesAt?_of_none hnone, bytesAt?_of_directory hl]

/-- Adding directories leaves places free of other names. -/
theorem free (h : AddsDirectories t t') (hf : t.Free ls) : t'.Free ls where
  noDevice l hl d hd := by
    rcases h.node l with h | ⟨-, h⟩ <;> rw [h] at hd
    · exact hf.noDevice l hl d hd
    · cases hd
  known l hl id x hx := h.contents ▸ hf.known l hl id x (h.file hx)
  apart l hl l' hl' id x x' hx hx' := hf.apart l hl l' hl' id x x' (h.file hx) (h.file hx')

end AddsDirectories

/-- A directory is made where there is nothing. -/
theorem makeDirectory_ok (h : t.makeDirectory directory path = .ok t') : AddsDirectories t t' := by
  rw [makeDirectory] at h
  rcases hp : t.place directory path with e | _ | l <;> rw [hp] at h
  · cases h
  · cases h
  · dsimp only at h
    split_ifs at h with hn
    cases h
    refine ⟨fun l' => ?_, rfl⟩
    rw [node?_put _ _ _ _ (place_destination hp).2]
    split_ifs with hl
    · exact .inr ⟨by simpa [hl] using hn, rfl⟩
    · exact .inl rfl

/-- A path is opened for writing at its destination: a device as it is, a file without its
contents, and nothing as a new file. -/
theorem openEmpty_ok {o : Outlet} (h : t.openEmpty directory path = .ok (o, t')) :
    Path.endsInSlash path = false ∧ ∃ l, t.place directory path = .ok (some l) ∧
      ((∃ d, t.node? l = some (.device d) ∧ o = .device d ∧ t' = t) ∨
        (∃ id x, t.node? l = some (.file id x) ∧ o = .file id ∧ t' = t.empty (.file id)) ∨
        (t.node? l = none ∧ o = .file t.contents.size ∧
          t' = (t.addFile l [] false).2.empty (.file t.contents.size))) := by
  rw [openEmpty, openOrCreate] at h
  rcases hp : t.place directory path with e | _ | l <;> rw [hp] at h
  · cases h
  · cases h
  · cases hslash : Path.endsInSlash path with
    | true => simp [hslash] at h
    | false =>
        refine ⟨rfl, l, rfl, ?_⟩
        simp only [hslash, Bool.false_eq_true, if_false] at h
        rcases hn : t.node? l with _ | _ | ⟨id, x⟩ | d <;> simp only [hn, addFile] at h
        · cases h
          exact .inr (.inr ⟨rfl, rfl, rfl⟩)
        · cases h
        · cases h
          exact .inr (.inl ⟨id, x, rfl, rfl, rfl⟩)
        · cases h
          exact .inl ⟨d, rfl, rfl, rfl⟩

/-- Where nothing but a file can be, an empty file is opened. -/
theorem openEmpty_file {o : Outlet} (h : t.openEmpty directory path = .ok (o, t'))
    (hf : t.Free ls) (hl : destination directory path ∈ ls) :
    Path.endsInSlash path = false ∧
      t'.place directory path = .ok (some (destination directory path)) ∧
      ChangedAt (destination directory path) t t' ∧
      ∃ id x, o = .file id ∧ t'.node? (destination directory path) = some (.file id x) ∧
        t'.contents[id]? = some [] := by
  obtain ⟨hslash, l, hp, hopen⟩ := openEmpty_ok h
  obtain ⟨rfl, hne⟩ := place_destination hp
  suffices hdone : ChangedAt (destination directory path) t t' ∧
      ∃ id x, o = .file id ∧ t'.node? (destination directory path) = some (.file id x) ∧
        t'.contents[id]? = some [] from ⟨hslash, hdone.1.place hp, hdone⟩
  rcases hopen with ⟨d, hd, -⟩ | ⟨id, x, hn, rfl, rfl⟩ | ⟨hn, rfl, rfl⟩
  · exact absurd hd (hf.noDevice _ hl d)
  · have hid := hf.known _ hl id x hn
    refine ⟨?_, id, x, rfl, by simpa using hn, by simp [empty, Array.getElem_modify, hid]⟩
    exact {
      notDirectory := by simp [hn]
      node _ _ := by simp
      contents i _ hi := by
        have hne : id ≠ i := by
          rintro rfl
          exact hi x hn
        simp [empty, Array.getElem?_modify, hne]
      size := by simp [empty]
      entry := .inl (by simp) }
  · have hn' : ((t.addFile (destination directory path) [] false).2.empty
        (.file t.contents.size)).node? (destination directory path) =
          some (.file t.contents.size false) := by
      simp [addFile, node?_put _ _ _ _ hne]
    refine ⟨?_, _, _, rfl, hn', by simp [empty, addFile, Array.getElem_modify]⟩
    exact {
      notDirectory := by simp [hn]
      node l' hl' := by
        rw [node?_empty, addFile, node?_put _ _ _ _ hne, if_neg hl']
        rfl
      contents i hi _ := by
        have hne : t.contents.size ≠ i := by omega
        simp [empty, addFile, Array.getElem?_modify, Array.getElem?_push, hne, hne.symm]
      size := by simp [empty, addFile]
      entry := .inr (.inr ⟨_, _, hn', Nat.le_refl _, by simp [empty, addFile]⟩) }

end FileTree

end TileFlow
