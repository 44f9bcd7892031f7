import TileFlow.Proofs.Emit.Layout
import TileFlow.Proofs.Stage.Pipeline

/-!
# Control flow of functions

The lines of a function are basic blocks. Loops and conditionals open blocks whose names carry the
number of the construct, so that no two blocks share a label, and they branch to blocks of their own
only. The header of a loop begins with a phi of two blocks: the one that was open where the loop
begins, which an earlier construct may have left open or an enclosing one opened, and the latch of
the loop. No other block branches to the header.

## Main definitions

* `jumps`: the branches of lines, each from the block it stands in.
* `PlacedLoop`: a loop among the lines of a function.
* `PlacedLoop.IsWritten`: a loop that is read off the lines of a text.

## Main results

* `Laid.nodup_labels`, `Laid.targets_mem`: labels are different, and every branch leads to one.
* `Encloses.loops`, `Laid.loops`: the loops of operations that are laid out.
* `functionLines_labels`, `functionLines_loops`: the labels and the loops of a function.
* `functionText_linked`: the control flow of a function that is translated.
-/

namespace TileFlow.Backend

open Text

variable {op : Operation} {ops : Forest Operation} {start finish lines later : List Line} {l : Line}
  {low mid high made made' : Nat} {block block' name opened exit : String}

/-! ### Labels -/

/-- The line of an operation neither opens a block nor leads to one. -/
theorem IsLineOf.straight (h : IsLineOf op l) : l.label? = none ∧ l.targets = [] := by
  cases h <;> exact ⟨rfl, rfl⟩

/-- The counter of names never falls over one operation. -/
theorem IsPlain.made_le (h : IsPlain made op lines high) : made ≤ high := by
  cases h with
  | single => exact le_rfl
  | addressed => exact Nat.le_succ _

/-- The lines of a plain operation have no label and no branch. -/
theorem IsPlain.straight (h : IsPlain made op lines high) :
    ∀ l ∈ lines, l.label? = none ∧ l.targets = [] := by
  cases h with
  | single hl => exact List.forall_mem_singleton.2 hl.straight
  | addressed _ _ hl =>
      exact List.forall_mem_cons.2 ⟨⟨rfl, rfl⟩, List.forall_mem_singleton.2 hl.straight⟩

/-- A plain operation opens no block. -/
theorem IsPlain.labels_eq_nil (h : IsPlain made op lines high) : labels lines = [] :=
  List.filterMap_eq_nil_iff.2 fun l hl => (h.straight l hl).1

/-- The counter of names never falls over a list of operations. -/
theorem Laid.made_le (h : Laid block made ops lines block' made') : made ≤ made' := by
  induction h with
  | nil => exact le_rfl
  | enclosed _ _ _ ihlines ihlater => omega
  | plain _ _ hop _ ih => exact hop.made_le.trans ih

/-- What encloses other operations is a loop or a condition. -/
theorem Encloses.is (h : Encloses block made op start opened finish exit) :
    (op.is "llvm.loop" || op.is "llvm.cond") = true := by
  cases h with
  | loop _ _ _ _ _ _ _ hop => rw [hop, Bool.true_or]
  | conditional _ _ hop => rw [hop, Bool.or_true]

/-- The labels around what is below a loop or a conditional carry the number of its name. -/
theorem Encloses.nodup_labels (h : Encloses block made op start opened finish exit) :
    (labels start ++ labels finish).Nodup ∧
      ∀ n ∈ labels start ++ labels finish, IsNumbered made (made + 1) n := by
  cases h with
  | loop names lower upper step a b c hop hname =>
      have := nodup_numbered made "loop" [".header", ".body", ".latch", ".exit"] (by decide)
        (by decide) (by decide)
      rw [← hname] at this
      exact this
  | conditional name condition hop hname =>
      have := nodup_numbered made "cond" [".then", ".end"] (by decide) (by decide) (by decide)
      rw [← hname] at this
      exact this

/-- The blocks that are open inside a loop or a conditional and after it. -/
theorem Encloses.getLast? (h : Encloses block made op start opened finish exit) :
    (labels start).getLast? = some opened ∧ (labels finish).getLast? = some exit := by
  cases h <;> exact ⟨rfl, rfl⟩

/-- The block that is open inside a loop or a conditional, and the one that is open after it. -/
theorem Encloses.isNumbered (h : Encloses block made op start opened finish exit) :
    IsNumbered made (made + 1) opened ∧ IsNumbered made (made + 1) exit := by
  obtain ⟨hopened, hexit⟩ := h.getLast?
  exact ⟨h.nodup_labels.2 _ (List.mem_append_left _ (List.mem_of_getLast? hopened)),
    h.nodup_labels.2 _ (List.mem_append_right _ (List.mem_of_getLast? hexit))⟩

/-- A loop or a conditional branches to its own blocks only. -/
theorem Encloses.targets_mem (h : Encloses block made op start opened finish exit) :
    ∀ l ∈ start ++ finish, ∀ t ∈ l.targets, t ∈ labels start ++ labels finish := by
  cases h with
  | loop names =>
      simp [Layout.loopStart, Layout.loopEnd, labels, Line.targets, Line.label?]
  | conditional name condition =>
      simp [Layout.conditionalStart, Layout.conditionalEnd, labels, Line.targets, Line.label?]

/-- The labels of operations are different, and carry the numbers of the names that were made. -/
theorem Laid.nodup_labels (h : Laid block made ops lines block' made') :
    (labels lines).Nodup ∧ ∀ n ∈ labels lines, IsNumbered made made' n := by
  induction h with
  | nil => exact ⟨.nil, fun _ hn => absurd hn List.not_mem_nil⟩
  | @enclosed block opened exit inner last made made' high op children rest start finish lines later
      hop hlines hlater ihlines ihlater =>
      obtain ⟨hown, hownNumbers⟩ := hop.nodup_labels
      obtain ⟨hinner, hinnerNumbers⟩ := ihlines
      obtain ⟨houter, houterNumbers⟩ := ihlater
      have hle := hlines.made_le
      have hle' := hlater.made_le
      have hperm : (labels (start ++ lines ++ finish ++ later)).Perm
          ((labels start ++ labels finish) ++ labels lines ++
            labels later) := by
        simp only [labels_append, List.append_assoc]
        exact (List.perm_append_left_iff _).2 (List.perm_append_comm_assoc _ _ _)
      have hfirst := IsNumbered.nodup_append hown hinner hownNumbers hinnerNumbers
      have hfirstNumbers : ∀ n ∈ (labels start ++ labels finish) ++
          labels lines, IsNumbered made made' n := fun n hn =>
        (List.mem_append.1 hn).elim (fun hn => (hownNumbers n hn).mono le_rfl hle)
          fun hn => (hinnerNumbers n hn).mono (Nat.le_succ _) le_rfl
      refine ⟨hperm.nodup_iff.2 (IsNumbered.nodup_append hfirst houter hfirstNumbers houterNumbers),
        fun n hn => ?_⟩
      exact (List.mem_append.1 (hperm.mem_iff.1 hn)).elim
        (fun hn => (hfirstNumbers n hn).mono le_rfl hle')
        fun hn => (houterNumbers n hn).mono (by omega) le_rfl
  | plain _ _ hop hlater ih =>
      rw [labels_append, hop.labels_eq_nil, List.nil_append]
      exact ⟨ih.1, fun n hn => (ih.2 n hn).mono hop.made_le le_rfl⟩

/-- Lines without a label leave the block that is open. -/
theorem openBlock_of_labels_eq_nil (h : labels lines = []) : openBlock block lines = block := by
  rw [openBlock, h, List.getLastD_nil]

/-- The last label names the block that is open. -/
theorem openBlock_of_getLast? (h : (labels lines).getLast? = some name) :
    openBlock block lines = name := by
  rw [openBlock, List.getLastD_eq_getLast?, h, Option.getD_some]

/-- Operations branch to their own blocks only. -/
theorem Laid.targets_mem (h : Laid block made ops lines block' made') :
    ∀ l ∈ lines, ∀ t ∈ l.targets, t ∈ labels lines := by
  induction h with
  | nil => exact fun _ hl => absurd hl List.not_mem_nil
  | @enclosed block opened exit inner last made made' high op children rest start finish lines later
      hop hlines hlater ihlines ihlater =>
      intro l hl t ht
      simp only [labels_append, List.mem_append] at hl ⊢
      have hown : l ∈ start ∨ l ∈ finish → t ∈ labels start ∨ t ∈ labels finish :=
        fun hl => List.mem_append.1 (hop.targets_mem l (List.mem_append.2 hl) t ht)
      rcases hl with ((hl | hl) | hl) | hl
      · have := hown (.inl hl)
        tauto
      · have := ihlines l hl t ht
        tauto
      · have := hown (.inr hl)
        tauto
      · have := ihlater l hl t ht
        tauto
  | plain _ _ hop _ ih =>
      intro l hl t ht
      rw [labels_append, hop.labels_eq_nil, List.nil_append]
      rcases List.mem_append.1 hl with hl | hl
      · rw [(hop.straight l hl).2] at ht
        cases ht
      · exact ih l hl t ht

/-! ### Jumps -/

/-- The branches of lines, before which a block is open: the block of each, and where it leads. -/
def jumps (block : String) : List Line → List (String × String)
  | [] => []
  | l :: rest => l.targets.map (block, ·) ++ jumps (l.label?.getD block) rest

/-- The first line opens a block if it has a label. -/
theorem openBlock_cons (block : String) (l : Line) (lines : List Line) :
    openBlock block (l :: lines) = openBlock (l.label?.getD block) lines := by
  rw [← List.singleton_append, openBlock_append]
  cases h : l.label? <;> simp [openBlock, labels, h]

/-- The branches of two lists of lines: the second list starts in the block the first leaves open.
-/
theorem jumps_append (block : String) (lines later : List Line) :
    jumps block (lines ++ later) = jumps block lines ++ jumps (openBlock block lines) later := by
  induction lines generalizing block with
  | nil => rfl
  | cons l lines ih => rw [List.cons_append, jumps, jumps, ih, openBlock_cons, List.append_assoc]

/-- A jump leads where a line does. -/
theorem exists_of_mem_jumps {source target : String} (h : (source, target) ∈ jumps block lines) :
    ∃ l ∈ lines, target ∈ l.targets := by
  induction lines generalizing block with
  | nil => cases h
  | cons l lines ih =>
      rcases List.mem_append.1 h with h | h
      · obtain ⟨t, ht, heq⟩ := List.mem_map.1 h
        cases heq
        exact ⟨l, List.mem_cons_self, ht⟩
      · obtain ⟨l', hl', ht⟩ := ih h
        exact ⟨l', List.mem_cons_of_mem _ hl', ht⟩

/-- What no line branches to has no branch from anywhere. -/
theorem notMem_jumps {source target : String} (h : ∀ l ∈ lines, target ∉ l.targets) :
    (source, target) ∉ jumps block lines := fun hmem => by
  obtain ⟨l, hl, ht⟩ := exists_of_mem_jumps hmem
  exact h l hl ht

/-- The branches of lines are read off their texts. -/
theorem jumpsIn_map_render (h : ∀ l ∈ lines, l.IsLinked) (block : String) :
    jumpsIn block (lines.map (·.render)) = jumps block lines := by
  induction lines generalizing block with
  | nil => rfl
  | cons l lines ih =>
      obtain ⟨hlabel, htargets⟩ := (h l List.mem_cons_self).read
      rw [List.map_cons, jumpsIn, jumps, hlabel, htargets, ih fun k hk =>
        h k (List.mem_cons_of_mem _ hk)]

/-- The labels of lines are read off their texts. -/
theorem labelsIn_map_render (h : ∀ l ∈ lines, l.IsLinked) :
    labelsIn (lines.map (·.render)) = labels lines := by
  rw [labelsIn, List.filterMap_map]
  exact List.filterMap_congr fun l hl => (h l hl).read.1

/-- Lines without branches lead nowhere. -/
theorem jumpsIn_of_targetsIn {lines : List String} (h : ∀ line ∈ lines, targetsIn line = []) :
    ∀ block, jumpsIn block lines = [] := by
  induction lines with
  | nil => exact fun _ => rfl
  | cons line lines ih =>
      intro block
      rw [jumpsIn, h line List.mem_cons_self, ih fun k hk => h k (List.mem_cons_of_mem _ hk)]
      rfl

/-- Lines of text without label and branch may be left out in front. -/
theorem jumpsIn_append_of_straight {lines : List String}
    (h : ∀ line ∈ lines, labelIn? line = none ∧ targetsIn line = []) (block : String)
    (later : List String) : jumpsIn block (lines ++ later) = jumpsIn block later := by
  induction lines with
  | nil => rfl
  | cons line lines ih =>
      obtain ⟨hlabel, htargets⟩ := h line List.mem_cons_self
      rw [List.cons_append, jumpsIn, hlabel, htargets, Option.getD_none,
        ih fun k hk => h k (List.mem_cons_of_mem _ hk)]
      rfl

/-- Lines of text without branch may be left out at the end. -/
theorem jumpsIn_append_of_targetsIn {lines later : List String}
    (h : ∀ line ∈ later, targetsIn line = []) (block : String) :
    jumpsIn block (lines ++ later) = jumpsIn block lines := by
  induction lines generalizing block with
  | nil => exact jumpsIn_of_targetsIn h block
  | cons line lines ih => rw [List.cons_append, jumpsIn, jumpsIn, ih]

/-! ### Loops -/

/-- Whether a line is a phi. -/
def Line.isPhi : Line → Bool
  | .phi _ _ _ _ _ => true
  | _ => false

/-- A plain operation has no phi line. -/
theorem IsPlain.isPhi (h : IsPlain made op lines high) : ∀ l ∈ lines, l.isPhi = false := by
  have hline : ∀ l, IsLineOf op l → l.isPhi = false := fun l hl => by cases hl <;> rfl
  cases h with
  | single hl => exact List.forall_mem_singleton.2 (hline _ hl)
  | addressed _ _ hl => exact List.forall_mem_cons.2 ⟨rfl, List.forall_mem_singleton.2 (hline _ hl)⟩

/-- A loop in the lines of a function: the lines before it, its names, and where its variable
starts. -/
structure PlacedLoop where
  before : List Line
  names : Layout.LoopNames
  lower : Operand

namespace PlacedLoop

variable {loop : PlacedLoop}

/-- The loop of an operation. -/
def IsOf (loop : PlacedLoop) (op : Operation) : Prop :=
  loop.names.counter = op.result.getD (loop.names.name ++ ".iv") ∧
    ∃ a b c, op.operands = [a, b, c] ∧ operandOf a = .ok loop.lower

/-- The block that is open where a loop begins, if `block` is open before all lines. -/
def origin (loop : PlacedLoop) (block : String) : String :=
  openBlock block loop.before

/-- The phi of a loop. -/
def phi (loop : PlacedLoop) (block : String) : Line :=
  .phi loop.names.counter loop.lower.name (loop.origin block) (loop.names.name ++ ".next")
    loop.names.latch

/-- A loop as a part of lines before which a block is open. -/
structure Stands (loop : PlacedLoop) (block : String) (lines : List Line) : Prop where
  placed : ∃ after, lines = loop.before ++
    [.branch loop.names.header, .label loop.names.header, loop.phi block] ++ after
  apart : loop.origin block ≠ loop.names.latch
  jumps_iff : ∀ source, (source, loop.names.header) ∈ jumps block lines ↔
    source = loop.origin block ∨ source = loop.names.latch

/-- A loop with more lines before it. -/
def precededBy (loop : PlacedLoop) (lines : List Line) : PlacedLoop :=
  { loop with before := lines ++ loop.before }

/-- The block a loop comes from, with lines before it. -/
theorem origin_precededBy (loop : PlacedLoop) (block : String) (lines : List Line) :
    (loop.precededBy lines).origin block = loop.origin (openBlock block lines) :=
  openBlock_append _ _ _

/-- The phi line of a loop, with lines before it. -/
theorem phi_precededBy (loop : PlacedLoop) (block : String) (lines : List Line) :
    (loop.precededBy lines).phi block = loop.phi (openBlock block lines) := by
  rw [phi, origin_precededBy]
  rfl

/-- Lines in front leave which operations the loops come from. -/
theorem forall₂_precededBy {loops : List PlacedLoop} {ops : List Operation}
    (h : List.Forall₂ IsOf loops ops) (lines : List Line) :
    List.Forall₂ IsOf (loops.map (·.precededBy lines)) ops :=
  List.forall₂_map_left_iff.2 h

/-- The phi lines of several loops, with lines before them. -/
theorem map_phi_precededBy (block : String) (lines : List Line) (loops : List PlacedLoop) :
    (loops.map (·.precededBy lines)).map (·.phi block) =
      loops.map (·.phi (openBlock block lines)) := by
  rw [List.map_map]
  exact List.map_congr_left fun loop _ => loop.phi_precededBy block lines

/-- The header of a loop that stands in the lines is one of the labels. -/
theorem Stands.header_mem (h : loop.Stands block lines) : loop.names.header ∈ labels lines := by
  obtain ⟨after, rfl⟩ := h.placed
  simp [labels, Line.label?]

/-- A loop stays what it is before lines that do not branch to its header. -/
theorem Stands.followedBy (h : loop.Stands block lines)
    (hlater : ∀ l ∈ later, loop.names.header ∉ l.targets) : loop.Stands block (lines ++ later) where
  placed := by
    obtain ⟨after, hafter⟩ := h.placed
    exact ⟨after ++ later, by rw [hafter, List.append_assoc]⟩
  apart := h.apart
  jumps_iff source := by
    rw [← h.jumps_iff source, jumps_append, List.mem_append, or_iff_left (notMem_jumps hlater)]

/-- A loop stays what it is after lines that do not branch to its header. -/
theorem Stands.after (h : loop.Stands (openBlock block start) lines)
    (hstart : ∀ l ∈ start, loop.names.header ∉ l.targets) :
    (loop.precededBy start).Stands block (start ++ lines) where
  placed := by
    obtain ⟨after, hafter⟩ := h.placed
    refine ⟨after, ?_⟩
    rw [phi_precededBy]
    simp only [precededBy, List.append_assoc]
    rw [hafter]
    simp only [List.append_assoc]
  apart := by
    rw [origin_precededBy]
    exact h.apart
  jumps_iff source := by
    rw [origin_precededBy]
    change (source, loop.names.header) ∈ jumps block (start ++ lines) ↔
      source = loop.origin (openBlock block start) ∨ source = loop.names.latch
    rw [← h.jumps_iff source, jumps_append, List.mem_append, or_iff_right (notMem_jumps hstart)]

end PlacedLoop

/-- The loops of operations, in the lines of these. -/
structure LoopsStand (block : String) (lines : List Line) (ops : List Operation)
    (loops : List PlacedLoop) : Prop where
  ops : List.Forall₂ PlacedLoop.IsOf loops ops
  phis : lines.filter (·.isPhi) = loops.map (·.phi block)
  stands : ∀ loop ∈ loops, loop.Stands block lines

/-- Lines without phi hold no loops. -/
theorem LoopsStand.nil (h : ∀ l ∈ lines, l.isPhi = false) : LoopsStand block lines [] [] where
  ops := .nil
  phis := List.filter_eq_nil_iff.2 fun l hl => by simp [h l hl]
  stands := fun _ hloop => absurd hloop List.not_mem_nil

/-- The loops of two parts of lines, neither of which branches into the other. -/
theorem LoopsStand.append {ops ops' : List Operation} {loops loops' : List PlacedLoop}
    (h : LoopsStand block lines ops loops)
    (h' : LoopsStand (openBlock block lines) later ops' loops')
    (hlines : ∀ l ∈ lines, ∀ t ∈ l.targets, t ∉ labels later)
    (hlater : ∀ l ∈ later, ∀ t ∈ l.targets, t ∉ labels lines) :
    LoopsStand block (lines ++ later) (ops ++ ops')
      (loops ++ loops'.map (·.precededBy lines)) where
  ops := List.rel_append h.ops (PlacedLoop.forall₂_precededBy h'.ops lines)
  phis := by
    rw [List.filter_append, List.map_append, h.phis, h'.phis, PlacedLoop.map_phi_precededBy]
  stands := by
    refine List.forall_mem_append.2
      ⟨fun loop hloop => ?_, List.forall_mem_map.2 fun loop hloop => ?_⟩
    · have hstands := h.stands loop hloop
      exact hstands.followedBy fun l hl ht => hlater l hl _ ht hstands.header_mem
    · have hstands := h'.stands loop hloop
      exact hstands.after fun l hl ht => hlines l hl _ ht hstands.header_mem

/-- A loop stands around the lines of what is below it, if these do not branch to its header. -/
theorem Encloses.ownLoops (h : Encloses block made op start opened finish exit)
    (hblock : ∀ high, ¬ IsNumbered made high block) :
    ∃ loops, List.Forall₂ PlacedLoop.IsOf loops (if op.is "llvm.loop" then [op] else []) ∧
      start.filter (·.isPhi) = loops.map (·.phi block) ∧ finish.filter (·.isPhi) = [] ∧
      ∀ lines, (∀ l ∈ lines, ∀ t ∈ l.targets, t ∉ labels start) →
        ∀ loop ∈ loops, loop.Stands block (start ++ lines ++ finish) := by
  have hlabels := h.nodup_labels
  cases h with
  | conditional name condition hop =>
      refine ⟨[], ?_, rfl, rfl, fun _ _ loop hloop => absurd hloop List.not_mem_nil⟩
      rw [if_neg (Bool.eq_false_iff.1 (Operation.not_is_of_is hop (by decide)))]
      exact .nil
  | loop names lower upper step a b c hop hname hcounter hoperands hlower =>
      let placed : PlacedLoop := ⟨[], names, lower⟩
      refine ⟨[placed], ?_, rfl, rfl, fun lines hother loop hloop => ?_⟩
      · rw [if_pos hop]
        exact .cons ⟨hcounter, a, b, c, hoperands, hlower⟩ .nil
      obtain rfl := List.mem_singleton.1 hloop
      obtain ⟨hnodup, hnumbers⟩ := hlabels
      have hlatch : block ≠ names.latch := by
        rintro rfl
        exact hblock _ (hnumbers _ (by simp [labels, Layout.loopEnd, Line.label?]))
      refine ⟨⟨(Layout.loopStart names block lower upper).drop 3 ++
        (lines ++ Layout.loopEnd names step), ?_⟩, hlatch, fun source => ?_⟩
      · rw [List.append_assoc]
        rfl
      have hlines : ∀ block, (source, names.header) ∉ jumps block lines := fun block =>
        notMem_jumps fun l hl ht => hother l hl _ ht
          (by simp [labels, Layout.loopStart, Line.label?])
      have hstart : jumps block (Layout.loopStart names block lower upper) =
          [(block, names.header), (names.header, names.body), (names.header, names.exit)] := rfl
      have hfinish : ∀ block, jumps block (Layout.loopEnd names step) =
          [(block, names.latch), (names.latch, names.header)] := fun _ => rfl
      have hne : names.header ≠ names.body ∧ names.header ≠ names.exit ∧
          names.header ≠ names.latch := by
        simp [Layout.LoopNames.header, Layout.LoopNames.body, Layout.LoopNames.exit,
          Layout.LoopNames.latch, String.append_right_inj]
      change (source, names.header) ∈ jumps block _ ↔ source = block ∨ source = names.latch
      rw [jumps_append, jumps_append, hstart, hfinish]
      simp [hlines, hne]

/-- The loops of an operation and of what is below it. -/
theorem Encloses.loops {ops : List Operation} {inside : List PlacedLoop}
    (h : Encloses block made op start opened finish exit)
    (hblock : ∀ high, ¬ IsNumbered made high block) (hinside : LoopsStand opened lines ops inside)
    (hlines : ∀ l ∈ lines, ∀ t ∈ l.targets, t ∉ labels start)
    (hother : ∀ l ∈ start ++ finish, ∀ t ∈ l.targets, t ∉ labels lines) :
    ∃ loops, LoopsStand block (start ++ lines ++ finish)
      ((if op.is "llvm.loop" then [op] else []) ++ ops) loops := by
  obtain ⟨own, hown, hownPhi, hfinishPhi, hownStands⟩ := h.ownLoops hblock
  have hopened : openBlock block start = opened := openBlock_of_getLast? h.getLast?.1
  rw [← hopened] at hinside
  refine ⟨own ++ inside.map (·.precededBy start),
    List.rel_append hown (PlacedLoop.forall₂_precededBy hinside.ops _), ?_,
    List.forall_mem_append.2 ⟨hownStands lines hlines, List.forall_mem_map.2 fun loop hloop => ?_⟩⟩
  · simp only [List.filter_append, List.map_append, PlacedLoop.map_phi_precededBy, hownPhi,
      hfinishPhi, hinside.phis, List.append_nil]
  · have hstands := hinside.stands loop hloop
    exact (hstands.after fun l hl ht =>
      hother l (List.mem_append_left _ hl) _ ht hstands.header_mem).followedBy fun l hl ht =>
        hother l (List.mem_append_right _ hl) _ ht hstands.header_mem

/-- The loops of operations that are laid out stand in their lines, if the block that is open before
them is not one of their own. -/
theorem Laid.loops (h : Laid block made ops lines block' made')
    (hblock : ∀ high, ¬ IsNumbered made high block) :
    ∃ loops, LoopsStand block lines ((laidOut ops).filter (·.is "llvm.loop")) loops := by
  induction h with
  | nil => exact ⟨[], .nil fun _ hl => absurd hl List.not_mem_nil⟩
  | @enclosed block opened exit inner last made made' high op children rest start finish lines later
      hop hlines hlater ihlines ihlater =>
      have hnumbered := hop.isNumbered
      obtain ⟨inside, hinside⟩ := ihlines fun _ hn => hnumbered.1.ne hn rfl
      obtain ⟨outside, houtside⟩ := ihlater fun _ hn =>
        (hnumbered.2.mono le_rfl hlines.made_le).ne hn rfl
      -- Every part branches to its own labels, and no label is one of two parts.
      have hnodup := (Laid.enclosed hop hlines hlater).nodup_labels.1
      have hownTargets := hop.targets_mem
      have hinnerTargets := hlines.targets_mem
      have houterTargets := hlater.targets_mem
      simp only [labels_append, List.nodup_append, List.mem_append] at hnodup hownTargets
      obtain ⟨own, hown⟩ := hop.loops hblock hinside (fun l hl t ht hmem => by grind)
        fun l hl t ht hmem => by grind
      have hexit : openBlock block (start ++ lines ++ finish) = exit := by
        rw [openBlock_append, openBlock_of_getLast? hop.getLast?.2]
      have hops : (laidOut (.cons op children rest)).filter (·.is "llvm.loop") =
          (if op.is "llvm.loop" then [op] else []) ++
            (laidOut children).filter (·.is "llvm.loop") ++
              (laidOut rest).filter (·.is "llvm.loop") := by
        rw [laidOut, hop.is]
        cases hloop : op.is "llvm.loop" <;> simp [hloop]
      rw [hops]
      refine ⟨_, hown.append (hexit ▸ houtside) (fun l hl t ht hmem => ?_) fun l hl t ht hmem => ?_⟩
      · grind
      · simp only [labels_append, List.mem_append] at hmem
        grind
  | @plain block last made made' high op children rest lines later hloop hcond hop hlater ih =>
      obtain ⟨loops, hloops⟩ := ih fun high hn => hblock high (hn.mono hop.made_le le_rfl)
      have hstay : openBlock block lines = block := openBlock_of_labels_eq_nil hop.labels_eq_nil
      have hops : (laidOut (.cons op children rest)).filter (·.is "llvm.loop") =
          (laidOut rest).filter (·.is "llvm.loop") := by
        simp [laidOut, hloop, hcond]
      rw [hops]
      refine ⟨_, (LoopsStand.nil hop.isPhi).append (hstay.symm ▸ hloops) (fun l hl t ht => ?_)
        fun l _ t _ hmem => ?_⟩
      · rw [(hop.straight l hl).2] at ht
        cases ht
      · rw [hop.labels_eq_nil] at hmem
        cases hmem

/-! ### Functions -/

/-- The lines of a function are those of its body after the label of its first block, and perhaps a
return. -/
theorem functionLines_ok {body : Forest Operation} (h : functionLines body = .ok lines) :
    ∃ inner last, Layout.forest {} body = .ok (inner, last) ∧
      lines = .label "entry" :: inner ++
        if (Text.trimEnd (renderLines inner)).endsWith "ret void" then [] else [.ret] := by
  obtain ⟨⟨inner, last⟩, hinner, h⟩ := Except.bind_ok_iff.1 h
  cases h
  exact ⟨inner, last, hinner, rfl⟩

/-- Around the lines of the body there are a label before them, and perhaps a return after. -/
theorem functionLines_laid {body : Forest Operation} (h : functionLines body = .ok lines) :
    ∃ (inner finish : List Line) (last : Layout), Laid "entry" 0 body inner last.block last.made ∧
      (∀ l ∈ finish, l = .ret) ∧ lines = [.label "entry"] ++ inner ++ finish := by
  obtain ⟨inner, last, hinner, hparts⟩ := functionLines_ok h
  refine ⟨inner, _, last, Layout.forest_laid hinner, fun l hl => ?_, hparts⟩
  split at hl
  · cases hl
  · exact List.mem_singleton.1 hl

/-- The entry block has no number. -/
theorem not_isNumbered_entry (low high : Nat) : ¬ IsNumbered low high "entry" :=
  fun h => h.numeral_ne_nil (by decide)

/-- The blocks of a function have different labels, the first of which is `entry`, and every branch
leads to one of them. -/
theorem functionLines_labels {body : Forest Operation} (h : functionLines body = .ok lines) :
    (labels lines).Nodup ∧ (labels lines).head? = some "entry" ∧
      ∀ l ∈ lines, ∀ t ∈ l.targets, t ∈ labels lines := by
  obtain ⟨inner, finish, last, hlaid, hfinish, rfl⟩ := functionLines_laid h
  obtain ⟨hnodup, hnumbers⟩ := hlaid.nodup_labels
  have hnone : labels finish = [] :=
    List.filterMap_eq_nil_iff.2 fun l hl => by
      rw [hfinish l hl]
      rfl
  have hlabels : labels ([.label "entry"] ++ inner ++ finish) = "entry" :: labels inner := by
    rw [labels_append, labels_append, hnone, List.append_nil]
    rfl
  rw [hlabels]
  refine ⟨List.nodup_cons.2 ⟨fun hmem => not_isNumbered_entry _ _ (hnumbers _ hmem), hnodup⟩, rfl,
    fun l hl t ht => ?_⟩
  rcases List.mem_append.1 hl with hl | hl
  · rcases List.mem_cons.1 hl with rfl | hl
    · cases ht
    · exact List.mem_cons_of_mem _ (hlaid.targets_mem l hl t ht)
  · rw [hfinish l hl] at ht
    cases ht

/-- The loops of a function stand in its lines. -/
theorem functionLines_loops {body : Forest Operation} (h : functionLines body = .ok lines) :
    ∃ loops, LoopsStand "entry" lines ((laidOut body).filter (·.is "llvm.loop")) loops := by
  obtain ⟨inner, finish, last, hlaid, hfinish, rfl⟩ := functionLines_laid h
  obtain ⟨loops, hloops⟩ := hlaid.loops (not_isNumbered_entry 0)
  have hquiet : ∀ l ∈ finish, l.isPhi = false ∧ l.targets = [] ∧ l.label? = none := fun l hl => by
    rw [hfinish l hl]
    exact ⟨rfl, rfl, rfl⟩
  have hnone : labels finish = [] := List.filterMap_eq_nil_iff.2 fun l hl => (hquiet l hl).2.2
  have hentry : LoopsStand "entry" [.label "entry"] [] [] :=
    .nil fun l hl => by
      rw [List.mem_singleton.1 hl]
      rfl
  have hbody := hentry.append hloops
    (fun l hl t ht => by
      rw [List.mem_singleton.1 hl] at ht
      cases ht)
    (fun l hl t ht hmem => by
      have hnumbered := hlaid.nodup_labels.2 t (hlaid.targets_mem l hl t ht)
      rw [List.mem_singleton.1 hmem] at hnumbered
      exact not_isNumbered_entry _ _ hnumbered)
  have hall := hbody.append (.nil fun l hl => (hquiet l hl).1)
    (fun l hl t ht => by simp [hnone])
    (fun l hl t ht => by
      rw [(hquiet l hl).2.1] at ht
      cases ht)
  rw [List.append_nil] at hall
  exact ⟨_, hall⟩

/-- The line before the body of a function neither opens a block nor branches. -/
theorem read_define (symbol : String) : labelIn? ("define void @" ++ symbol ++ "() \x7b") = none ∧
    targetsIn ("define void @" ++ symbol ++ "() \x7b") = [] := by
  have hline : "define void @" ++ symbol ++ "() \x7b" =
      "define" ++ " " ++ ("void" ++ " " ++ ("@" ++ symbol ++ "() \x7b")) := by
    rw [show "define void @" = "define" ++ " " ++ ("void" ++ " " ++ "@") by decide]
    simp only [String.append_assoc]
  have hfirst : words "define" = ["define"] ∧ words "void" = ["void"] := by decide
  obtain ⟨word, rest, hwords⟩ := List.exists_cons_of_ne_nil
    (split_ne_nil ' ' ("@" ++ symbol ++ "() \x7b"))
  rw [labelIn?, targetsIn, hline, words_append, words_append, hfirst.1, hfirst.2, words, hwords]
  exact ⟨rfl, by simp [targetsOfWords]⟩

/-- The blocks of the lines of a function have names that are made for blocks. -/
theorem functionLines_isLinked {body : Forest Operation} (h : functionLines body = .ok lines) :
    ∀ l ∈ lines, l.IsLinked := by
  obtain ⟨inner, finish, last, hlaid, hfinish, rfl⟩ := functionLines_laid h
  have hentry : IsBlockName "entry" := by decide
  refine List.forall_mem_append.2 ⟨List.forall_mem_append.2 ⟨?_, hlaid.isLinked hentry⟩,
    fun l hl => ?_⟩
  · exact List.forall_mem_singleton.2 (List.forall_mem_singleton.2 hentry)
  · rw [hfinish l hl]
    exact fun _ hname => absurd hname List.not_mem_nil

/-- The lines of the text of a function: those of its body, one before them and three after. -/
theorem split_functionText {symbol text : String} {body : Forest Operation}
    (h : functionText symbol body = .ok text) (hsymbol : IsUnbroken symbol) :
    ∃ lines, functionLines body = .ok lines ∧ split '\n' text =
      ["define void @" ++ symbol ++ "() \x7b"] ++ lines.flatMap (fun l => split '\n' l.render) ++
        ["\x7d", "", ""] := by
  obtain ⟨lines, hlines, h⟩ := Except.bind_ok_iff.1 h
  refine ⟨lines, hlines, ?_⟩
  have hfirst : IsUnbroken ("define void @" ++ symbol ++ "() \x7b") :=
    ((by decide : IsUnbroken "define void @").append hsymbol).append (by decide)
  have hbreak : "() \x7b\n" = "() \x7b" ++ "\n" := by decide
  have htext : text =
      "define void @" ++ symbol ++ "() \x7b" ++ "\n" ++ (renderLines lines ++ "\x7d\n\n") := by
    rw [← Except.ok.inj h]
    change "define void @" ++ symbol ++ "() \x7b\n" ++ _ ++ _ = _
    rw [hbreak]
    simp only [String.append_assoc]
  have hlast : split '\n' "\x7d\n\n" = ["\x7d", "", ""] := by decide
  rw [htext, split_append_break, split_of_isUnbroken hfirst, split_renderLines, hlast]
  rfl

/-- A loop in the lines of a text. It begins with a branch to its header, which begins with a phi,
in the block that was opened last before it. The phi lists this block and the latch, if the result
and the first bound of the loop are one word each, and these are the blocks that branch to the
header. -/
structure PlacedLoop.IsWritten (loop : PlacedLoop) (text : List String) : Prop where
  placed : ∃ before after, text = before ++ ["  br label %" ++ loop.names.header,
      loop.names.header ++ ":", (loop.phi "entry").render] ++ after ∧
    (labelsIn before).getLast? = some (loop.origin "entry")
  incoming : ' ' ∉ loop.names.counter.toList → ' ' ∉ loop.lower.name.toList →
    incomingIn (loop.phi "entry").render = [loop.origin "entry", loop.names.latch]
  apart : loop.origin "entry" ≠ loop.names.latch
  jumpsTo_iff : ∀ block, JumpsTo text block loop.names.header ↔
    block = loop.origin "entry" ∨ block = loop.names.latch

/-- A loop that stands in the lines of a function is written in their text, whatever stands around
it without opening a block or branching. -/
theorem PlacedLoop.Stands.isWritten {inner : List Line} {start finish : List String}
    {loop : PlacedLoop}
    (h : loop.Stands "entry" (.label "entry" :: inner))
    (hlinked : ∀ l ∈ Line.label "entry" :: inner, l.IsLinked)
    (hstart : ∀ line ∈ start, labelIn? line = none ∧ targetsIn line = [])
    (hfinish : ∀ line ∈ finish, labelIn? line = none ∧ targetsIn line = []) :
    loop.IsWritten (start ++ (Line.label "entry" :: inner).map (·.render) ++ finish) := by
  obtain ⟨after, hplaced⟩ := h.placed
  have hphi : (loop.phi "entry").IsLinked := hlinked _ (by rw [hplaced]; simp)
  have hheader : IsBlockName loop.names.header :=
    hlinked (.label loop.names.header) (by rw [hplaced]; simp) _ List.mem_cons_self
  have hbefore : ∀ l ∈ loop.before, l.IsLinked := fun l hl =>
    hlinked l (by rw [hplaced, List.append_assoc]; exact List.mem_append_left _ hl)
  have hnone : labelsIn start = [] := List.filterMap_eq_nil_iff.2 fun line hline =>
    (hstart line hline).1
  refine ⟨⟨start ++ loop.before.map (·.render), after.map (·.render) ++ finish, ?_, ?_⟩,
    fun hcounter hlower => ?_, h.apart, fun block => ?_⟩
  · rw [hplaced]
    simp only [List.map_append, List.append_assoc]
    rfl
  · -- The label of the entry block is the first line, so that some block is open before the loop.
    obtain ⟨rest, hrest⟩ : ∃ rest, loop.before = .label "entry" :: rest := by
      cases hcases : loop.before with
      | nil => rw [hcases] at hplaced; cases hplaced
      | cons l rest =>
          rw [hcases, List.append_assoc, List.cons_append, List.cons.injEq] at hplaced
          exact ⟨rest, by rw [← hplaced.1]⟩
    rw [labelsIn_append, hnone, List.nil_append, labelsIn_map_render hbefore, PlacedLoop.origin,
      openBlock, List.getLastD_eq_getLast?]
    cases hlast : (labels loop.before).getLast? with
    | none =>
        rw [List.getLast?_eq_none_iff, hrest] at hlast
        cases hlast
    | some name => rfl
  · have hnext : ' ' ∉ (loop.names.name ++ ".next").toList := by
      have := hheader.notMem (c := ' ') (by decide)
      rw [Layout.LoopNames.header, String.toList_append, List.mem_append, not_or] at this
      rw [String.toList_append, List.mem_append, not_or]
      exact ⟨this.1, by decide⟩
    exact incomingIn_phi hcounter hlower hnext (hphi _ (by simp [PlacedLoop.phi, Line.blockNames]))
      (hphi _ (by simp [PlacedLoop.phi, Line.blockNames]))
  · rw [JumpsTo, jumpsIn_append_of_targetsIn fun line hline => (hfinish line hline).2,
      jumpsIn_append_of_straight hstart, jumpsIn_map_render hlinked]
    exact h.jumps_iff block

/-- The control flow of a function that is translated, read off its text. If no name in it breaks a
line, its blocks have different labels, of which the first is `entry`, and every branch leads to one
of them. Each loop has a phi at the start of its header, and the two blocks of the phi are the one
that is open where the loop begins and the latch of the loop, which are the blocks that branch to
the header. No other line is written as a phi. -/
theorem functionText_linked {symbol text : String} {body : Forest Operation}
    (h : functionText symbol body = .ok text) (hsymbol : IsUnbroken symbol)
    (hbody : AreUnbroken body) :
    (labelsIn (split '\n' text)).Nodup ∧ (labelsIn (split '\n' text)).head? = some "entry" ∧
      (∀ line ∈ split '\n' text, ∀ target ∈ targetsIn line, target ∈ labelsIn (split '\n' text)) ∧
      ∃ (lines : List Line) (loops : List PlacedLoop), functionLines body = .ok lines ∧
        split '\n' text =
          ["define void @" ++ symbol ++ "() \x7b"] ++ lines.map (·.render) ++ ["\x7d", "", ""] ∧
        lines.filter (·.isPhi) = loops.map (·.phi "entry") ∧
        List.Forall₂ PlacedLoop.IsOf loops ((laidOut body).filter (·.is "llvm.loop")) ∧
        ∀ loop ∈ loops, loop.IsWritten (split '\n' text) := by
  obtain ⟨lines, hlines, htext⟩ := split_functionText h hsymbol
  rw [flatMap_split_render (functionLines_isUnbroken hlines hbody)] at htext
  have hlinked := functionLines_isLinked hlines
  obtain ⟨hnodup, hentry, htargets⟩ := functionLines_labels hlines
  obtain ⟨loops, hloops⟩ := functionLines_loops hlines
  have hstart : ∀ line ∈ ["define void @" ++ symbol ++ "() \x7b"],
      labelIn? line = none ∧ targetsIn line = [] :=
    List.forall_mem_singleton.2 (read_define symbol)
  have hfinish : ∀ line ∈ ["\x7d", "", ""], labelIn? line = none ∧ targetsIn line = [] := by decide
  have hlabels : labelsIn (split '\n' text) = labels lines := by
    have hnone : ∀ around : List String, (∀ line ∈ around, labelIn? line = none ∧
        targetsIn line = []) →
        labelsIn around = [] := fun around h => List.filterMap_eq_nil_iff.2 fun line hline =>
          (h line hline).1
    rw [htext, labelsIn_append, labelsIn_append, hnone _ hstart, hnone _ hfinish,
      labelsIn_map_render hlinked, List.nil_append, List.append_nil]
  rw [hlabels]
  refine ⟨hnodup, hentry, fun line hline target htarget => ?_, lines, loops, hlines, htext,
    hloops.phis,
    hloops.ops, fun loop hloop => ?_⟩
  · rw [htext, List.mem_append, List.mem_append] at hline
    rcases hline with (hline | hline) | hline
    · rw [(hstart line hline).2] at htarget
      cases htarget
    · obtain ⟨l, hl, rfl⟩ := List.mem_map.1 hline
      rw [(hlinked l hl).read.2] at htarget
      exact htargets l hl target htarget
    · rw [(hfinish line hline).2] at htarget
      cases htarget
  · obtain ⟨inner, finish, -, -, -, rfl⟩ := functionLines_laid hlines
    rw [htext]
    exact (hloops.stands loop hloop).isWritten hlinked hstart hfinish

/-- A loop around a conditional and a second loop, and a third loop after it. -/
def nestedLoops : Forest Operation :=
  .cons { name := "llvm.loop", result := some "i", operands := [.int 0, .int 4, .int 1],
          hasRegion := true }
    (.cons { name := "llvm.cond", operands := [.value "i"], hasRegion := true } .nil <|
      .single { name := "llvm.loop", operands := [.int 0, .int 2, .int 1], hasRegion := true } .nil)
        <|
    .single { name := "llvm.loop", operands := [.int 1, .int 8, .int 2], hasRegion := true } .nil

/-- The second loop begins in the block after the conditional and the third one at the exit of the
first, and their phis name these blocks. -/
theorem functionText_linked_nested : ∃ (text : String) (loops : List PlacedLoop),
    functionText "main" nestedLoops = .ok text ∧ IsUnbroken "main" ∧ AreUnbroken nestedLoops ∧
      (labelsIn (split '\n' text)).Nodup ∧
      loops.map (fun loop => (loop.phi "entry").render) =
        ["  %i = phi i32 [ 0, %entry ], [ %loop1.next, %loop1.latch ]",
          "  %loop3.iv = phi i32 [ 0, %cond2.end ], [ %loop3.next, %loop3.latch ]",
          "  %loop4.iv = phi i32 [ 1, %loop1.exit ], [ %loop4.next, %loop4.latch ]"] ∧
      ∀ loop ∈ loops, loop.IsWritten (split '\n' text) := by
  have hlayout : ∃ laid : List Line × Layout, Layout.forest {} nestedLoops = .ok laid ∧
      laid.1.filter (·.isPhi) = [.phi "i" "0" "entry" "loop1.next" "loop1.latch",
        .phi "loop3.iv" "0" "cond2.end" "loop3.next" "loop3.latch",
        .phi "loop4.iv" "1" "loop1.exit" "loop4.next" "loop4.latch"] :=
    exists_ok_of_any (by decide +kernel)
  obtain ⟨⟨inner, last⟩, hinner, hphis⟩ := hlayout
  obtain ⟨text, htext⟩ : ∃ text, functionText "main" nestedLoops = .ok text := by
    rw [functionText, functionLines, hinner]
    exact ⟨_, rfl⟩
  have hmain : IsUnbroken "main" := by decide
  have hnames : AreUnbroken nestedLoops := by decide
  obtain ⟨hnodup, -, -, lines, loops, hlines, -, hloops, -, hwritten⟩ :=
    functionText_linked htext hmain hnames
  refine ⟨text, loops, htext, hmain, hnames, hnodup, ?_, hwritten⟩
  have hlinesPhis : lines.filter (·.isPhi) = inner.filter (·.isPhi) := by
    rw [functionLines, hinner] at hlines
    rw [← Except.ok.inj hlines, List.filter_append]
    -- The label and the return that are put around the lines of the body are no phis.
    split <;> exact List.append_nil _
  calc loops.map (fun loop => (loop.phi "entry").render)
      = (lines.filter (·.isPhi)).map (·.render) := by rw [hloops, List.map_map]; rfl
    _ = _ := by rw [hlinesPhis, hphis]; decide

/-- A store to a symbol whose text goes on with a branch and a label, after a loop that begins at a
symbol whose text goes on with a pair of a phi. -/
def brokenStore : Forest Operation :=
  .cons
    { name := "llvm.loop", operands := [.symbol "x, %a ], [ 0", .int 4, .int 1], hasRegion := true }
    .nil <|
  .single { name := "llvm.store", operands := [.int 1,
    .symbol "x, align 4\n  br label %loop1.header\nloop1.header:\n  store i32 1, ptr @x"] } .nil

/-- Names are taken over as they are, so that the text of such a function has two blocks of one
label, a third branch to the header of its loop, and a phi that lists three blocks. -/
theorem functionText_misread : ∃ text, functionText "main" brokenStore = .ok text ∧
    ¬ (labelsIn (split '\n' text)).Nodup ∧
    (∀ block ∈ ["entry", "loop1.latch", "loop1.exit"],
    JumpsTo (split '\n' text) block "loop1.header") ∧
    ∃ line ∈ split '\n' text, incomingIn line = ["a", "entry", "loop1.latch"] := by
  have hlayout : ∃ laid : List Line × Layout, Layout.forest {} brokenStore = .ok laid ∧
      laid.1 = [.branch "loop1.header", .label "loop1.header",
        .phi "loop1.iv" "@x, %a ], [ 0" "entry" "loop1.next" "loop1.latch",
        .lessThan "loop1.cond" "%loop1.iv" "4", .branchIf "loop1.cond" "loop1.body" "loop1.exit",
        .label "loop1.body", .branch "loop1.latch", .label "loop1.latch",
        .binary "loop1.next" "add" "%loop1.iv" "1", .branch "loop1.header", .label "loop1.exit",
        .store (.int 1)
          "@x, align 4\n  br label %loop1.header\nloop1.header:\n  store i32 1, ptr @x"] :=
    exists_ok_of_any (by decide +kernel)
  obtain ⟨⟨inner, last⟩, hinner, rfl⟩ := hlayout
  obtain ⟨text, htext⟩ : ∃ text, functionText "main" brokenStore = .ok text := by
    rw [functionText, functionLines, hinner]
    exact ⟨_, rfl⟩
  obtain ⟨lines, hlines, hsplit⟩ := split_functionText htext (by decide)
  rw [functionLines, hinner] at hlines
  refine ⟨text, htext, ?_⟩
  rw [hsplit, ← Except.ok.inj hlines]
  -- A return at the end makes no difference.
  split <;> decide +kernel

end TileFlow.Backend
