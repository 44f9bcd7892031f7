import Mathlib.Data.List.Infix
import TileFlow.Files.Artifact
import TileFlow.Proofs.Files.Tree

/-!
# Trees that cannot be told apart at some locations

Two trees are alike at some locations if each has there what the other one has, up to the identities
of files, which depend on how many files there were before. All that a compilation does to its
outputs then has the same result in both trees, and leaves them alike.

## Main definitions

* `FileTree.way`: the locations that a path goes through.
* `FileTree.Alike`: two trees are alike at some locations.
* `OutputFile.Alike`: two output files are in the same state.

## Main results

* `FileTree.Alike.place_eq`, `FileTree.Alike.hasEntry_eq`: paths lead to the same places.
* `FileTree.Alike.openEmpty`: they are opened in both trees or in none.
* `Artifact.emit_alike`, `Artifact.emitPair_alike`: artifacts are written in step.
-/

namespace TileFlow

/-- Two results are the same error, or related. -/
inductive ResultsAlike {ε α β : Type} (R : α → β → Prop) : Except ε α → Except ε β → Prop where
  | error (e : ε) : ResultsAlike R (.error e) (.error e)
  | ok {a : α} {b : β} (h : R a b) : ResultsAlike R (.ok a) (.ok b)

namespace FileTree

variable {t t' t'' : FileTree} {ls : List Location} {ρ ρ' : FileId → FileId → Prop}
  {l l' directory : Location} {path : String}

/-- The locations that a path goes through, if the directories on the way are there. -/
def way (directory : Location) (path : String) : List Location :=
  (Path.names path).inits.map fun names => names.foldl Location.step (start directory path)

/-- Every place on the way of a path is one of its places. -/
theorem mem_way {ns : List String} (hns : ns <+: Path.names path) :
    ns.foldl Location.step (start directory path) ∈ way directory path :=
  List.mem_map_of_mem ((List.mem_inits _ _).2 hns)

/-- The destination of a path is a place on its way. -/
theorem destination_mem_way : destination directory path ∈ way directory path :=
  mem_way (List.prefix_refl _)

/-- Every file has contents. -/
def Sound (t : FileTree) : Prop :=
  ∀ l id x, t.node? l = some (.file id x) → id < t.contents.size

/-- Two entries are the same but for the identity of a file. -/
inductive NodesAlike (ρ : FileId → FileId → Prop) : Option Node → Option Node → Prop where
  | none : NodesAlike ρ none none
  | directory : NodesAlike ρ (some .directory) (some .directory)
  | file {i i' : FileId} (x : Bool) (h : ρ i i') :
    NodesAlike ρ (some (.file i x)) (some (.file i' x))
  | device (d : Device) : NodesAlike ρ (some (.device d)) (some (.device d))

/-- Two outlets are the same but for the identity of a file. -/
inductive OutletsAlike (ρ : FileId → FileId → Prop) : Outlet → Outlet → Prop where
  | file {i i' : FileId} (h : ρ i i') : OutletsAlike ρ (.file i) (.file i')
  | device (d : Device) : OutletsAlike ρ (.device d) (.device d)

/-- Two trees are alike at some locations: files correspond to files with the same contents. -/
structure Alike (ls : List Location) (ρ : FileId → FileId → Prop) (t t' : FileTree) : Prop where
  node : ∀ l ∈ ls, NodesAlike ρ (t.node? l) (t'.node? l)
  contents : ∀ i i', ρ i i' → ∃ bytes, t.contents[i]? = some bytes ∧ t'.contents[i']? = some bytes
  unique : ∀ i i' k k', ρ i i' → ρ k k' → (i = k ↔ i' = k')

/-- Nodes alike under few identities are so under more. -/
theorem NodesAlike.imp {n n' : Option Node} (h : NodesAlike ρ n n')
    (hρ : ∀ i i' x, n' = some (.file i' x) → ρ i i' → ρ' i i') : NodesAlike ρ' n n' := by
  cases h with
  | none => exact .none
  | directory => exact .directory
  | file x h => exact .file x (hρ _ _ x rfl h)
  | device d => exact .device d

/-- What is looked up does not depend on the identity of a file. -/
theorem NodesAlike.lookupError?_eq {n n' : Option Node} (h : NodesAlike ρ n n') (name : String) :
    lookupError? n name = lookupError? n' name := by
  cases h <;> rfl

/-- Outlets alike under few identities are so under more. -/
theorem OutletsAlike.mono {o o' : Outlet} (h : OutletsAlike ρ o o')
    (hρ : ∀ i i', ρ i i' → ρ' i i') : OutletsAlike ρ' o o' := by
  cases h with
  | file h => exact .file (hρ _ _ h)
  | device d => exact .device d

/-- Adding directories keeps a tree sound. -/
theorem AddsDirectories.sound (h : AddsDirectories t t') (ht : t.Sound) : t'.Sound :=
  fun l id x hx => h.contents ▸ ht l id x (h.file hx)

/-- A tree is like itself. -/
theorem Sound.alike (h : t.Sound) (ls : List Location) :
    Alike ls (fun i i' => i = i' ∧ i < t.contents.size) t t where
  node l _ := by
    rcases hn : t.node? l with _ | _ | ⟨id, x⟩ | d
    · exact .none
    · exact .directory
    · exact .file x ⟨rfl, h l id x hn⟩
    · exact .device d
  contents i i' hi := by
    obtain ⟨rfl, hi⟩ := hi
    exact ⟨_, Array.getElem?_eq_getElem hi, Array.getElem?_eq_getElem hi⟩
  unique i i' k k' hi hk := by rw [hi.1, hk.1]

namespace Alike

/-- What a change to the second tree leaves alone stays alike. -/
theorem keeps (h : Alike ls ρ t t') (hk : Keeps ls t' t'') : ∃ ρ', Alike ls ρ' t t'' := by
  refine ⟨fun i i' => ρ i i' ∧ ∃ l ∈ ls, ∃ x, t'.node? l = some (.file i' x), fun l hl => ?_,
    fun i i' hi => ?_, fun i i' k k' hi hk => h.unique i i' k k' hi.1 hk.1⟩
  · rw [(hk l hl).1]
    exact (h.node l hl).imp fun i i' x hx hi => ⟨hi, l, hl, x, hx⟩
  · obtain ⟨bytes, hb, hb'⟩ := h.contents i i' hi.1
    obtain ⟨l, hl, x, hx⟩ := hi.2
    exact ⟨bytes, hb, (hk l hl).2 i' x bytes hx hb'⟩

/-- Alike locations hold the same. -/
theorem bytesAt?_eq (h : Alike ls ρ t t') (hl : l ∈ ls) : t.bytesAt? l = t'.bytesAt? l := by
  have hn := h.node l hl
  generalize hn₁ : t.node? l = n at hn
  generalize hn₂ : t'.node? l = n' at hn
  cases hn with
  | none => rw [bytesAt?_of_none hn₁, bytesAt?_of_none hn₂]
  | directory => rw [bytesAt?_of_directory hn₁, bytesAt?_of_directory hn₂]
  | file x hi =>
      obtain ⟨bytes, hb, hb'⟩ := h.contents _ _ hi
      rw [bytesAt?_of_file hn₁ hb, bytesAt?_of_file hn₂ hb']
  | device d => simp [bytesAt?, snapshot?, hn₁, hn₂]

/-! ### Paths -/

/-- Names lead to the same place, if they only lead through alike locations. -/
theorem walk_eq (h : Alike ls ρ t t') {names : List String}
    (hway : ∀ ns, ns <+: names → ns.foldl Location.step l ∈ ls) :
    t.walk l names = t'.walk l names := by
  induction names generalizing l with
  | nil => rfl
  | cons name rest ih =>
      have hl : l ∈ ls := hway [] (List.nil_prefix)
      have hrest := ih (l := l.step name) fun ns hns =>
        hway (name :: ns) ((List.prefix_cons_inj name).2 hns)
      rw [walk_cons, walk_cons, (h.node l hl).lookupError?_eq, hrest]

/-- A path puts a new entry at the same place. -/
theorem place_eq (h : Alike ls ρ t t') (hway : way directory path ⊆ ls) :
    t.place directory path = t'.place directory path := by
  rw [place, place]
  rcases pathError? path with _ | e
  · rcases hlast : (Path.names path).getLast? with _ | last
    · rfl
    · have hinit : (Path.names path).dropLast <+: Path.names path := List.dropLast_prefix _
      have hwalk : t.walk (start directory path) (Path.names path).dropLast =
          t'.walk (start directory path) (Path.names path).dropLast :=
        h.walk_eq fun ns hns => hway (mem_way (hns.trans hinit))
      dsimp only
      rw [hwalk]
      rcases hend : t'.walk (start directory path) (Path.names path).dropLast with e | l
      · rfl
      · have hl : l ∈ ls := walk_eq_ok hend ▸ hway (mem_way hinit)
        dsimp only
        rw [(h.node l hl).lookupError?_eq]
  · rfl

/-- A path leads to something in both trees or in none. -/
theorem hasEntry_eq (h : Alike ls ρ t t') (hway : way directory path ⊆ ls) :
    t.hasEntry directory path = t'.hasEntry directory path := by
  have hnames (ns) (hns : ns <+: Path.names path ++ if Path.endsInSlash path then ["."] else []) :
      ns.foldl Location.step (start directory path) ∈ ls := by
    split at hns
    · rcases List.prefix_concat_iff.1 hns with rfl | hns
      · rw [List.foldl_append]
        exact hway (mem_way (List.prefix_refl _))
      · exact hway (mem_way hns)
    · rw [List.append_nil] at hns
      exact hway (mem_way hns)
  rw [hasEntry, hasEntry, locate, locate]
  rcases pathError? path with _ | e
  · dsimp only
    rw [h.walk_eq hnames]
    split
    · rfl
    · next l hl =>
        have hmem : l ∈ ls := walk_eq_ok hl ▸ hnames _ (List.prefix_refl _)
        have hn := h.node l hmem
        generalize t.node? l = n at hn
        generalize t'.node? l = n' at hn
        cases hn <;> rfl
  · rfl

/-! ### Changes -/

/-- Related files are written to in step. -/
theorem modify (h : Alike ls ρ t t') {i i' : FileId} (hi : ρ i i') (f : Bytes → Bytes) :
    Alike ls ρ { t with contents := t.contents.modify i f }
      { t' with contents := t'.contents.modify i' f } where
  node := h.node
  contents k k' hk := by
    obtain ⟨bytes, hb, hb'⟩ := h.contents k k' hk
    have hsame := h.unique i i' k k' hi hk
    by_cases hik : i = k
    · refine ⟨f bytes, ?_, ?_⟩
      · simp [Array.getElem?_modify, hik, hb]
      · simp [Array.getElem?_modify, hsame.1 hik, hb']
    · refine ⟨bytes, ?_, ?_⟩
      · simp [Array.getElem?_modify, hik, hb]
      · simp [Array.getElem?_modify, mt hsame.2 hik, hb']
  unique := h.unique

/-- Something is written to alike outlets of both trees. -/
theorem writeOut (h : Alike ls ρ t t') {o o' : Outlet} (ho : OutletsAlike ρ o o') (offset : Nat)
    (bytes : Bytes) :
    ResultsAlike (Alike ls ρ) (t.writeOut o offset bytes) (t'.writeOut o' offset bytes) := by
  cases ho with
  | file hi => exact .ok (h.modify hi _)
  | device d =>
      cases d with
      | null => exact .ok h
      | full =>
          rw [FileTree.writeOut, FileTree.writeOut]
          split
          · exact .ok h
          · exact .error _

/-- An entry is taken away in both trees. -/
theorem erase (h : Alike ls ρ t t') (hne : l ≠ []) : Alike ls ρ (t.erase l) (t'.erase l) where
  node k hk := by
    rw [node?_erase _ _ _ hne, node?_erase _ _ _ hne]
    split
    · exact .none
    · exact h.node k hk
  contents := h.contents
  unique := h.unique

/-- Identities relate files that both trees have. -/
theorem lt_size (h : Alike ls ρ t t') {i i' : FileId} (hi : ρ i i') :
    i < t.contents.size ∧ i' < t'.contents.size := by
  obtain ⟨bytes, hb, hb'⟩ := h.contents i i' hi
  exact ⟨(Array.getElem?_eq_some_iff.1 hb).1, (Array.getElem?_eq_some_iff.1 hb').1⟩

/-- New files correspond to each other, and to none that was there before. -/
theorem addFile (h : Alike ls ρ t t') (hne : l ≠ []) :
    Alike ls (fun i i' => ρ i i' ∨ i = t.contents.size ∧ i' = t'.contents.size)
      (t.addFile l [] false).2 (t'.addFile l [] false).2 where
  node k hk := by
    rw [FileTree.addFile, FileTree.addFile, node?_put _ _ _ _ hne, node?_put _ _ _ _ hne]
    split
    · exact .file _ (.inr ⟨rfl, rfl⟩)
    · exact (h.node k hk).imp fun _ _ _ _ => .inl
  contents i i' hi := by
    rcases hi with hi | ⟨rfl, rfl⟩
    · obtain ⟨hlt, hlt'⟩ := h.lt_size hi
      obtain ⟨bytes, hb, hb'⟩ := h.contents i i' hi
      refine ⟨bytes, ?_, ?_⟩
      · simp [FileTree.addFile, Array.getElem?_push, Nat.ne_of_lt hlt, hb]
      · simp [FileTree.addFile, Array.getElem?_push, Nat.ne_of_lt hlt', hb']
    · exact ⟨[], by simp [FileTree.addFile], by simp [FileTree.addFile]⟩
  unique i i' k k' hi hk := by
    rcases hi with hi | ⟨rfl, rfl⟩ <;> rcases hk with hk | ⟨rfl, rfl⟩
    · exact h.unique i i' k k' hi hk
    · exact iff_of_false (Nat.ne_of_lt (h.lt_size hi).1) (Nat.ne_of_lt (h.lt_size hi).2)
    · exact iff_of_false (Nat.ne_of_gt (h.lt_size hk).1) (Nat.ne_of_gt (h.lt_size hk).2)
    · simp

/-- A path is opened for writing in both trees, or cannot be in both. -/
theorem openEmpty (h : Alike ls ρ t t') (hway : way directory path ⊆ ls) :
    ResultsAlike (fun x y => ∃ ρ', (∀ i i', ρ i i' → ρ' i i') ∧ OutletsAlike ρ' x.1 y.1 ∧
      Alike ls ρ' x.2 y.2) (t.openEmpty directory path) (t'.openEmpty directory path) := by
  rw [FileTree.openEmpty, FileTree.openEmpty, openOrCreate, openOrCreate, h.place_eq hway]
  rcases hp : t'.place directory path with e | _ | l
  · exact .error _
  · exact .error _
  obtain ⟨rfl, hne⟩ := place_destination hp
  have hn := h.node _ (hway destination_mem_way)
  cases Path.endsInSlash path with
  | true => exact .error _
  | false =>
      simp only [Bool.false_eq_true, if_false]
      generalize hn₁ : t.node? (destination directory path) = n at hn
      generalize hn₂ : t'.node? (destination directory path) = n' at hn
      cases hn with
      | directory => exact .error _
      | device d => exact .ok ⟨ρ, fun _ _ => id, .device d, h⟩
      | file x hi => exact .ok ⟨ρ, fun _ _ => id, .file hi, h.modify hi _⟩
      | none =>
          have hnew := h.addFile hne
          exact .ok ⟨_, fun _ _ => .inl, .file (.inr ⟨rfl, rfl⟩), hnew.modify (.inr ⟨rfl, rfl⟩) _⟩

end Alike

end FileTree

open FileTree

variable {t t' : FileTree} {ls : List Location} {ρ ρ' : FileId → FileId → Prop}
  {directory : Location}

namespace OutputFile

/-- Two output files for a path are in the same state, on alike outlets. -/
structure Alike (path : String) (ρ : FileId → FileId → Prop) (o o' : OutputFile) : Prop where
  named : o.path = path
  named' : o'.path = path
  outlet : OutletsAlike ρ o.outlet o'.outlet
  offset : o.offset = o'.offset
  pending : o.pending = o'.pending

variable {o o' : OutputFile} {path : String}

/-- Related output files, in trees that are alike. -/
abbrev AlikeIn (ls : List Location) (path : String) (ρ : FileId → FileId → Prop)
    (x y : OutputFile × FileTree) : Prop :=
  x.1.Alike path ρ y.1 ∧ FileTree.Alike ls ρ x.2 y.2

namespace Alike

/-- Open outputs alike under few identities are so under more. -/
theorem mono (h : o.Alike path ρ o') (hρ : ∀ i i', ρ i i' → ρ' i i') : o.Alike path ρ' o' where
  named := h.named
  named' := h.named'
  outlet := h.outlet.mono hρ
  offset := h.offset
  pending := h.pending

/-- Writing through to two outputs that are alike leaves trees that are alike. -/
theorem writeThrough (h : o.Alike path ρ o') (ht : FileTree.Alike ls ρ t t') (bytes : Bytes) :
    ResultsAlike (AlikeIn ls path ρ) (o.writeThrough bytes t) (o'.writeThrough bytes t') := by
  have hw := ht.writeOut h.outlet o.offset bytes
  rw [OutputFile.writeThrough, OutputFile.writeThrough, ← h.offset]
  generalize t.writeOut o.outlet o.offset bytes = r at hw
  generalize t'.writeOut o'.outlet o.offset bytes = r' at hw
  cases hw with
  | error e => exact .error e
  | ok ht => exact .ok ⟨⟨h.named, h.named', h.outlet, rfl, h.pending⟩, ht⟩

/-- Flushing two outputs that are alike leaves trees that are alike. -/
theorem flush (h : o.Alike path ρ o') (ht : FileTree.Alike ls ρ t t') :
    ResultsAlike (AlikeIn ls path ρ) (o.flush t) (o'.flush t') := by
  have hw := h.writeThrough ht o.pending
  rw [OutputFile.flush, OutputFile.flush, ← h.pending]
  generalize o.writeThrough o.pending t = r at hw
  generalize o'.writeThrough o.pending t' = r' at hw
  cases hw with
  | error e => exact .error e
  | ok hw => exact .ok ⟨⟨hw.1.named, hw.1.named', hw.1.outlet, hw.1.offset, rfl⟩, hw.2⟩

/-- Writing to two outputs that are alike leaves trees that are alike. -/
theorem write (h : o.Alike path ρ o') (ht : FileTree.Alike ls ρ t t') (bytes : Bytes) :
    ResultsAlike (AlikeIn ls path ρ) (o.write bytes t) (o'.write bytes t') := by
  have hroom : ResultsAlike (AlikeIn ls path ρ)
      (if capacity < o.pending.length + bytes.length then o.flush t else .ok (o, t))
      (if capacity < o'.pending.length + bytes.length then o'.flush t' else .ok (o', t')) := by
    rw [← h.pending]
    split
    · exact h.flush ht
    · exact .ok ⟨h, ht⟩
  rw [OutputFile.write, OutputFile.write]
  generalize
    (if capacity < o.pending.length + bytes.length then o.flush t else .ok (o, t)) = r at hroom
  generalize
    (if capacity < o'.pending.length + bytes.length then o'.flush t' else .ok (o', t')) = r'
    at hroom
  cases hroom with
  | error e => exact .error e
  | ok hx =>
      dsimp only
      split
      · exact hx.1.writeThrough hx.2 bytes
      · exact .ok ⟨⟨hx.1.named, hx.1.named', hx.1.outlet, hx.1.offset, by rw [hx.1.pending]⟩, hx.2⟩

/-- Keeping two outputs that are alike leaves trees that are alike. -/
theorem keep (h : o.Alike path ρ o') (ht : FileTree.Alike ls ρ t t') :
    ResultsAlike (FileTree.Alike ls ρ) (o.keep t) (o'.keep t') := by
  have hw := h.flush ht
  rw [OutputFile.keep, OutputFile.keep]
  generalize o.flush t = r at hw
  generalize o'.flush t' = r' at hw
  cases hw with
  | error e => exact .error e
  | ok hw => exact .ok hw.2

/-- Discarding two outputs that are alike leaves trees that are alike. -/
theorem discard (h : o.Alike path ρ o') (ht : FileTree.Alike ls ρ t t')
    (hway : way directory path ⊆ ls) :
    FileTree.Alike ls ρ (o.discard directory t) (o'.discard directory t') := by
  have hunlink {t t' : FileTree} (ht : FileTree.Alike ls ρ t t') :
      FileTree.Alike ls ρ (t.unlink directory o.path) (t'.unlink directory o'.path) := by
    rw [unlink, unlink, h.named, h.named', ht.place_eq hway]
    rcases hp : t'.place directory path with e | _ | l
    · exact ht
    · exact ht
    obtain ⟨rfl, hne⟩ := place_destination hp
    have hn := ht.node _ (hway destination_mem_way)
    dsimp only
    generalize t.node? (destination directory path) = n at hn
    generalize t'.node? (destination directory path) = n' at hn
    cases hn with
    | none => exact ht
    | directory => exact ht
    | device d => exact ht
    | file x hi =>
        dsimp only
        split
        · exact ht
        · exact ht.erase hne
  have hw := h.flush ht
  rw [OutputFile.discard, OutputFile.discard]
  generalize o.flush t = r at hw
  generalize o'.flush t' = r' at hw
  cases hw with
  | error e => exact hunlink ht
  | ok hw => exact hunlink hw.2

end Alike

end OutputFile

namespace Artifact

variable {a b : Artifact} {path : String} {text text' : Except CompileError String}

/-- An artifact is opened in both trees, or cannot be in both. -/
theorem openOutput_alike (h : FileTree.Alike ls ρ t t') (hway : way directory a.path ⊆ ls) :
    ResultsAlike
      (fun x y => ∃ ρ', (∀ i i', ρ i i' → ρ' i i') ∧ OutputFile.AlikeIn ls a.path ρ' x y)
      (a.openOutput directory t) (a.openOutput directory t') := by
  have hopen := h.openEmpty hway
  rw [openOutput, openOutput, OutputFile.create, OutputFile.create]
  generalize t.openEmpty directory a.path = r at hopen
  generalize t'.openEmpty directory a.path = r' at hopen
  cases hopen with
  | error e => exact .error _
  | ok hx =>
      obtain ⟨ρ', hρ, ho, ht⟩ := hx
      exact .ok ⟨ρ', hρ, ⟨rfl, rfl, ho, rfl, rfl⟩, ht⟩

/-- A text is written in both trees, or cannot be in both. -/
theorem writeText_alike {o o' : OutputFile} (ho : o.Alike path ρ o') (h : FileTree.Alike ls ρ t t')
    (text : Except CompileError String) :
    ResultsAlike (OutputFile.AlikeIn ls path ρ) (writeText o text t) (writeText o' text t') := by
  rcases text with e | s
  · exact .error _
  · have hw := ho.write h (.ofText s)
    rw [writeText, writeText]
    generalize o.write (.ofText s) t = r at hw
    generalize o'.write (.ofText s) t' = r' at hw
    cases hw with
    | error e => exact .error _
    | ok hx => exact .ok hx

/-- An output file is kept in both trees, or is gone in both. -/
theorem keepOutput_alike {o o' : OutputFile} (ho : o.Alike path ρ o') (h : FileTree.Alike ls ρ t t')
    (hway : way directory path ⊆ ls) :
    (keepOutput directory o t).1 = (keepOutput directory o' t').1 ∧
      FileTree.Alike ls ρ (keepOutput directory o t).2 (keepOutput directory o' t').2 := by
  have hk := ho.keep h
  rw [keepOutput, keepOutput]
  generalize o.keep t = r at hk
  generalize o'.keep t' = r' at hk
  cases hk with
  | error e => exact ⟨rfl, ho.discard h hway⟩
  | ok ht => exact ⟨rfl, ht⟩

/-- An artifact is written with the same result in both trees. -/
theorem emit_alike (h : FileTree.Alike ls ρ t t') (hway : way directory a.path ⊆ ls)
    (text : Except CompileError String) :
    (a.emit directory text t).1 = (a.emit directory text t').1 ∧
      ∃ ρ', FileTree.Alike ls ρ' (a.emit directory text t).2 (a.emit directory text t').2 := by
  have hopen := openOutput_alike h hway
  rw [emit, emit]
  generalize a.openOutput directory t = r at hopen
  generalize a.openOutput directory t' = r' at hopen
  cases hopen with
  | error e => exact ⟨rfl, ρ, h⟩
  | @ok x y hx =>
      obtain ⟨ρ', -, ho, ht⟩ := hx
      have hw := writeText_alike ho ht text
      dsimp only
      generalize writeText x.1 text x.2 = r at hw
      generalize writeText y.1 text y.2 = r' at hw
      cases hw with
      | error e => exact ⟨rfl, ρ', ho.discard ht hway⟩
      | @ok x y hx =>
          obtain ⟨hresult, ht⟩ := keepOutput_alike hx.1 hx.2 hway
          dsimp only
          generalize keepOutput directory x.1 x.2 = r at hresult ht
          generalize keepOutput directory y.1 y.2 = r' at hresult ht
          obtain ⟨r, t₁⟩ := r
          obtain ⟨r', t₂⟩ := r'
          obtain rfl : r = r' := hresult
          rcases r with e | ⟨⟩ <;> exact ⟨rfl, ρ', ht⟩

/-- Two artifacts that stay together are written with the same result in both trees. -/
theorem emitPair_alike (h : FileTree.Alike ls ρ t t') (hway : way directory a.path ⊆ ls)
    (hway' : way directory b.path ⊆ ls) (text text' : Except CompileError String) :
    (a.emitPair directory text b text' t).1 = (a.emitPair directory text b text' t').1 ∧
      ∃ ρ', FileTree.Alike ls ρ' (a.emitPair directory text b text' t).2
        (a.emitPair directory text b text' t').2 := by
  have hopen := openOutput_alike h hway
  rw [emitPair, emitPair]
  generalize a.openOutput directory t = r at hopen
  generalize a.openOutput directory t' = r' at hopen
  cases hopen with
  | error e => exact ⟨rfl, ρ, h⟩
  | @ok x y hx =>
  obtain ⟨ρ₁, -, ho, ht⟩ := hx
  have hw := writeText_alike ho ht text
  dsimp only
  generalize writeText x.1 text x.2 = r at hw
  generalize writeText y.1 text y.2 = r' at hw
  cases hw with
  | error e => exact ⟨rfl, ρ₁, ho.discard ht hway⟩
  | @ok x y hx =>
  obtain ⟨ho, ht⟩ := hx
  have hopen' := openOutput_alike ht hway'
  dsimp only
  generalize b.openOutput directory x.2 = r at hopen'
  generalize b.openOutput directory y.2 = r' at hopen'
  cases hopen' with
  | error e => exact ⟨rfl, ρ₁, ho.discard ht hway⟩
  | @ok z w hz =>
  obtain ⟨ρ₂, hρ, ho', ht⟩ := hz
  have ho := ho.mono hρ
  have hw' := writeText_alike ho' ht text'
  dsimp only
  generalize writeText z.1 text' z.2 = r at hw'
  generalize writeText w.1 text' w.2 = r' at hw'
  cases hw' with
  | error e => exact ⟨rfl, ρ₂, ho.discard (ho'.discard ht hway') hway⟩
  | @ok z w hz =>
  obtain ⟨ho', ht⟩ := hz
  obtain ⟨hresult, ht⟩ := keepOutput_alike ho ht hway
  dsimp only
  generalize keepOutput directory x.1 z.2 = r at hresult ht
  generalize keepOutput directory y.1 w.2 = r' at hresult ht
  obtain ⟨r, t₁⟩ := r
  obtain ⟨r', t₂⟩ := r'
  obtain rfl : r = r' := hresult
  rcases r with e | ⟨⟩
  · exact ⟨rfl, ρ₂, ho'.discard ht hway'⟩
  · obtain ⟨hresult, ht⟩ := keepOutput_alike ho' ht hway'
    dsimp only
    generalize keepOutput directory z.1 t₁ = r at hresult ht
    generalize keepOutput directory w.1 t₂ = r' at hresult ht
    obtain ⟨r, t₁⟩ := r
    obtain ⟨r', t₂⟩ := r'
    obtain rfl : r = r' := hresult
    rcases r with e | ⟨⟩ <;> exact ⟨rfl, ρ₂, ht⟩

/-- An artifact that is written is the one that was asked for. -/
theorem emit_eq_ok {a' : Artifact} (h : (a.emit directory text t).1 = .ok a') : a' = a := by
  rw [emit] at h
  repeat' split at h
  all_goals cases h
  rfl

/-- A pair that is emitted is the pair that was asked for. -/
theorem emitPair_eq_ok {ab : Artifact × Artifact}
    (h : (a.emitPair directory text b text' t).1 = .ok ab) : ab = (a, b) := by
  rw [emitPair] at h
  repeat' split at h
  all_goals cases h
  rfl

end Artifact

end TileFlow
