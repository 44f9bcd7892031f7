import TileFlow.Emit.HostSources
import TileFlow.Emit.InstructionStream
import TileFlow.Emit.Llvm
import TileFlow.Emit.Target
import TileFlow.Package.Documents
import TileFlow.Proofs.Program.Renumbering
import TileFlow.Proofs.Stage.Renumbered

/-!
# Stages and translations see the tree

Cores become functions in step on a program and on a renumbering of it. Here the order of the rounds
matters, as a core may be inside of another one, and what a round moves must still be in the body:
the cores that are left stay below the top, and the devices at the top. What a program is translated
to lists its operations in the order of the body and tells them by their names and contents, so that
a renumbering of it is translated to the same.

Every stage of the compiler goes in step on a program and on a renumbering of it. Programs that are
equal as trees are renumberings of one compact form, so that no stage, no translation and no size of
a package can tell them apart, and what stages leave of them is equal as trees again.

## Main results

* `inStepAt_lowerCore`: the function of one core.
* `ensuresInStep_lowerDevice`: the functions and globals of one device.
* `inStep_lowerCores`: those of a program.
* `Program.Renumbers.contents`: the operations of the body in place of their identities.
* `Program.Renumbers.backendText`, `Program.Renumbers.instructionWords`: code for the cores and the
  instruction stream.
* `Program.Renumbers.summaries`: what the host has to set up.
* `Stage.inStep_action`: every stage of the compiler goes in step.
* `Stage.run_renumbers`: the effect of a stage on a renumbered program.
* `Program.SameTree.indistinguishable`: stages and translations of programs that are equal as trees.
-/

/-! ## Translations -/

namespace TileFlow

open TileFlow.Action

variable {r : OpId → OpId} {n : Nat} {p q : Program} {device core : OpId} {symbols : BufferSymbols}

/-! ### Operations of a core -/

/-- Lowering the use of a lock goes in step with a renumbering. -/
theorem inStep_lowerLockUse (intrinsics : String × String) (use : OpId) :
    InStep r n (lowerLockUse intrinsics use) (lowerLockUse intrinsics (r use)) id := by
  refine .get_bind fun p q h _ => ?_
  have hdefining (lock : String) : ((q.definingOp? lock).bind fun d => (q.op d).operandInt? 1) =
      (p.definingOp? lock).bind fun d => (p.op d).operandInt? 1 := by
    rw [h.definingOp?, Option.bind_map]
    simp only [Function.comp_def, h.op]
  simp only [h.op, hdefining]
  refine .bind (inStep_orFail _ _) fun _ => .bind (inStep_orFail _ _) fun _ => ?_
  split
  · exact .bind (inStep_pure _) fun _ => inStep_update _ _
  · split
    · exact .bind (inStep_pure _) fun _ => inStep_update _ _
    · exact inStep_throw_bind _ _ _

/-- Operands that are lowered without a look at the program. -/
theorem inStep_mk {α : Type} (x : Except StageError α) :
    InStep r n (ExceptT.mk (pure x) : Action α) (ExceptT.mk (pure x)) id := fun p q h _ => by
  have hrun (p : Program) : runOn (ExceptT.mk (pure x) : Action α) p = (x, p) := rfl
  refine inStepAt_of_eq h (hrun p) ?_
  rw [hrun]
  cases x <;> rfl

/-- Lowering an operation of a core goes in step with a renumbering. -/
theorem inStep_lowerCoreOp (intrinsics : String × String) (symbols : BufferSymbols)
    (locals : List String) (tile : Tile) (b : OpId) :
    InStep r n (lowerCoreOp intrinsics symbols locals tile b)
      (lowerCoreOp intrinsics symbols locals tile (r b)) id := by
  refine .get_bind fun p q h _ => ?_
  simp only [h.op]
  split
  · exact inStep_lowerLockUse _ _
  · exact .bind (inStep_mk _) fun _ => inStep_update _ _

/-! ### One core -/

/-- The operations of a core are moved into a new function, and the core is erased. -/
theorem inStepAt_outline (h : p.Renumbers r q) (hdevice : device ∈ p.body.roots)
    (hcore : core ∈ p.walk) (function : Operation) : InStepAt r p q (do
      let function ← Action.insertBefore device function
      ((← get).children (some core)).forM fun child => Action.moveTo child function
      Action.erase core) (do
      let function ← Action.insertBefore (r device) function
      ((← get).children (some (r core))).forM fun child => Action.moveTo child function
      Action.erase (r core)) id := by
  refine (inStep_insertBefore device function p q h (Nat.zero_le _)).bind_map
    fun _ p' q' hinsert h' _ => ?_
  obtain ⟨hroot, hstill, hnew, hchildren⟩ := h.tree.insertFunction hdevice hcore function
  rw [runOn_insertBefore, Prod.mk.injEq, Except.ok.injEq, hnew] at hinsert
  obtain ⟨rfl, rfl⟩ := hinsert
  have hlist := h'.children (some core)
  rw [Option.map_some] at hlist
  refine .get_bind ?_
  rw [hlist]
  exact (inStepAt_moveAll h' hroot hchildren).bind fun _ p'' q'' _ h'' hsize =>
    inStep_erase (Nat.lt_of_lt_of_le (h'.tree.sound.created core hstill) hsize) p'' q'' h''
      (Nat.le_refl _)

/-- Lowering a core goes in step with a renumbering. -/
theorem inStepAt_lowerCore (h : p.Renumbers r q) (hdevice : device ∈ p.body.roots)
    (hcore : core ∈ p.walk) :
    InStepAt r p q (lowerCore device symbols core) (lowerCore (r device) symbols (r core)) id := by
  rw [lowerCore, lowerCore]
  refine .get_bind ?_
  rw [h.owningTile?]
  refine (inStep_orFail _ _ p q h (Nat.zero_le _)).bind fun tile p' q' hrun h' _ => ?_
  obtain ⟨-, rfl⟩ := orFail_ok.1 hrun
  dsimp only
  rw [h.walkIn, h.modelOf, h.filterMap_op _ (·.result)]
  refine (InStep.forM (fun b _ => inStep_lowerCoreOp _ _ _ _ b) _ _ h' (Nat.zero_le _)).bind
    fun _ p'' q'' hops h'' _ => ?_
  have hbody := body_lowerCoreOps hops
  exact inStepAt_outline h'' (hbody ▸ hdevice) (by rwa [Program.walk, hbody]) _

/-! ### One device -/

/-- Inserting an operation and forgetting its identifier goes in step. -/
theorem inStep_insertBefore_pure {α : Type} (anchor : OpId) (op : Operation) (a : α) :
    InStep r n (do
      let _ ← Action.insertBefore anchor op
      pure a) (do
      let _ ← Action.insertBefore (r anchor) op
      pure a) id :=
  .bind_map (inStep_insertBefore _ _) fun _ => inStep_pure a

/-- Inserting the global of a buffer goes in step with a renumbering. -/
theorem inStep_insertGlobal (device : OpId) (symbols : BufferSymbols) (buffer : OpId) :
    InStep r n (insertGlobal device symbols buffer) (insertGlobal (r device) symbols (r buffer))
      id := by
  refine .get_bind fun p q h _ => ?_
  simp only [h.op]
  split
  · exact inStep_insertBefore_pure _ _ _
  · exact inStep_pure _

/-- Declaring an intrinsic goes in step with a renumbering. -/
theorem inStep_declareIntrinsic (device : OpId) (declared : List String) (intrinsic : String) :
    InStep r n (declareIntrinsic device declared intrinsic)
      (declareIntrinsic (r device) declared intrinsic) id := by
  rw [declareIntrinsic, declareIntrinsic]
  split
  · exact inStep_pure _
  · exact inStep_insertBefore_pure _ _ _

/-- A loop whose rounds keep the operations at the top. -/
theorem ensuresInStep_foldlM {α β γ : Type} {f : α → β → Action α} {g : α → γ → Action α}
    {k : β → γ} {l : List β} {a : α} (h : p.Renumbers r q)
    (hf : ∀ a b, InStep r 0 (f a b) (g a (k b)) id)
    (hroots : ∀ a b c q s, Program.Sound q → runOn (f a b) q = (.ok c, s) → q.KeepsRoots s) :
    EnsuresInStep r p q (l.foldlM f a) ((l.map k).foldlM g a) id p.KeepsRoots :=
  .foldlM (I := fun _ s => p.KeepsRoots s) h (fun _ hid => hid) fun b _ a p' q' hI h' =>
    ⟨hf a b p' q' h' (Nat.zero_le _), fun c s hrun id hid =>
      hroots a b c p' s h'.tree.sound hrun id (hI id hid)⟩

/-- The cores of a device become functions one after the other. -/
theorem ensuresInStep_lowerAll (h : p.Renumbers r q) (hdevice : device ∈ p.body.roots) :
    EnsuresInStep r p q ((p.findIn device "aie.core").forM (lowerCore device symbols))
      (((p.findIn device "aie.core").map r).forM (lowerCore (r device) symbols)) id
      p.KeepsRoots := by
  refine (EnsuresInStep.forM (I := p.CoresAhead) h (h.tree.coresAhead hdevice)
    fun core rest p' q' hI h' => ?_).mono fun p' hI => hI.roots
  exact ⟨inStepAt_lowerCore h' (hI.roots device hdevice) (hI.inner core List.mem_cons_self).1,
    fun _ s hrun => hI.step h'.tree hdevice hrun⟩

/-- Lowering a device goes in step and keeps the other operations at the top. -/
theorem ensuresInStep_lowerDevice (h : p.Renumbers r q) (hdevice : device ∈ p.body.roots)
    (declared : List String) :
    EnsuresInStep r p q (lowerDevice declared device) (lowerDevice declared (r device)) id fun p' =>
      ∀ id ∈ p.body.roots, id ≠ device → id ∈ p'.body.roots := by
  have hlt := h.tree.sound.created device (Program.mem_walk_of_mem_roots hdevice)
  rw [lowerDevice, lowerDevice]
  refine .get_bind ?_
  dsimp only
  rw [h.modelOf, h.findIn]
  refine (ensuresInStep_foldlM h (inStep_insertGlobal device)
    fun _ _ _ _ _ => insertGlobal_keepsRoots).bind fun symbols p₁ q₁ h₁ hsize₁ hroots₁ => ?_
  refine .get_bind ?_
  rw [h₁.findIn]
  refine (ensuresInStep_lowerAll h₁ (hroots₁ device hdevice)).bind
    fun _ p₂ q₂ h₂ hsize₂ hroots₂ => ?_
  refine (ensuresInStep_foldlM (k := id) h₂ (inStep_declareIntrinsic device)
    fun _ _ _ _ _ => declareIntrinsic_keepsRoots).bind fun declared p₃ q₃ h₃ hsize₃ hroots₃ => ?_
  have hlt₃ := Nat.lt_of_lt_of_le hlt (Nat.le_trans hsize₁ (Nat.le_trans hsize₂ hsize₃))
  refine ⟨((inStep_erase hlt₃).bind fun _ => inStep_pure declared) p₃ q₃ h₃ (Nat.le_refl _),
    fun _ s hrun => ?_⟩
  obtain ⟨_, u, herase, hrun⟩ := bind_ok.1 hrun
  obtain ⟨-, rfl⟩ := pure_ok.1 hrun
  rw [runOn_erase, Prod.mk.injEq] at herase
  obtain ⟨-, rfl⟩ := herase
  exact Program.KeepsRoots.erase (fun id hid => hroots₃ id (hroots₂ id (hroots₁ id hid))) h₃.tree

/-- Lowering all cores goes in step with a renumbering. -/
theorem inStep_lowerCores : InStep r n TileFlow.lowerCores TileFlow.lowerCores id :=
    fun p q h _ => by
  have hnodup : p.devices.Nodup := List.Pairwise.filter _ h.tree.distinct_body.nodup_roots
  have hloop : InStepAt r p q (p.devices.foldlM lowerDevice [])
      ((p.devices.map r).foldlM lowerDevice []) id :=
    (EnsuresInStep.foldlM (I := fun rest p => rest.Nodup ∧ ∀ device ∈ rest,
        device ∈ p.body.roots) h ⟨hnodup, fun device hdevice => (List.mem_filter.1 hdevice).1⟩
      fun device rest declared p' q' hI h' => by
        obtain ⟨hnodup, hroots⟩ := hI
        obtain ⟨hfresh, hnodup⟩ := List.nodup_cons.1 hnodup
        refine (ensuresInStep_lowerDevice h' (hroots device List.mem_cons_self) declared).mono
          fun s hs => ⟨hnodup, fun e he => ?_⟩
        exact hs e (hroots e (List.mem_cons_of_mem _ he)) (by rintro rfl; exact hfresh he)).1
  refine .get_bind ?_
  rw [h.devices]
  exact hloop.bind fun _ p' q' _ h' _ => inStep_pure () p' q' h' (Nat.zero_le _)

end TileFlow

namespace TileFlow

/-- What is made of each entry of a list that another one is mapped to. -/
theorem Except.mapM_map_eq {ε α β γ : Type} {k : α → β} {f : α → Except ε γ} {g : β → Except ε γ}
    (hfg : ∀ a, g (k a) = f a) (l : List α) : (l.map k).mapM g = l.mapM f := by
  rw [List.mapM_map]
  exact congrArg (List.mapM · l) (funext hfg)

namespace Program.Renumbers

variable {r : OpId → OpId} {p q : Program}

/-- A renumbering keeps the contents. -/
theorem contents (h : p.Renumbers r q) : q.contents = p.contents := by
  rw [Program.contents, Program.contents, h.body, Forest.map_map]
  exact Forest.map_congr fun id _ => h.op id

/-- A renumbering keeps the text for the back end. -/
theorem backendText (h : p.Renumbers r q) : q.backendText = p.backendText := by
  rw [Program.backendText, Program.backendText, h.contents]

/-- A renumbering keeps the instruction words. -/
theorem instructionWords (h : p.Renumbers r q) : q.instructionWords = p.instructionWords := by
  have hops : q.runtimeOps = p.runtimeOps := by
    rw [runtimeOps, runtimeOps, h.walk, h.map_op]
  rw [Program.instructionWords, Program.instructionWords, hops]

/-- A renumbering keeps the target architecture. -/
theorem targetArch (h : p.Renumbers r q) : q.targetArch = p.targetArch := by
  rw [Program.targetArch, Program.targetArch, h.devices]
  cases p.devices with
  | nil => rfl
  | cons device rest => simp only [List.map_cons, h.modelOf]

/-- A renumbering keeps the symbols of the cores. -/
theorem coreSymbols (h : p.Renumbers r q) : q.coreSymbols = p.coreSymbols := by
  rw [Program.coreSymbols, Program.coreSymbols, h.findAll, List.filterMap_map]
  exact congrArg (fun tile? => ((p.findAll "aie.core").filterMap tile?).map (·.coreSymbol))
    (funext h.owningTile?)

/-! ### Host sources -/

/-- A renumbering keeps the tile of an operation. -/
theorem placed (h : p.Renumbers r q) (id : OpId) : q.placed (r id) = p.placed id := by
  rw [Program.placed, Program.placed, h.owningTile?, h.op]

/-- A renumbering keeps what is known of a lock. -/
theorem lockSummary (h : p.Renumbers r q) (id : OpId) :
    q.lockSummary (r id) = p.lockSummary id := by
  rw [Program.lockSummary, Program.lockSummary, h.op, h.placed]

/-- A renumbering keeps what is known of a buffer. -/
theorem bufferSummary (h : p.Renumbers r q) (id : OpId) :
    q.bufferSummary (r id) = p.bufferSummary id := by
  rw [Program.bufferSummary, Program.bufferSummary, h.op, h.placed]

/-- A renumbering keeps the routes of a switchbox. -/
theorem switchboxRoutes (h : p.Renumbers r q) (box : OpId) :
    q.switchboxRoutes (r box) = p.switchboxRoutes box := by
  have hchildren := h.children (some box)
  rw [Option.map_some] at hchildren
  rw [Program.switchboxRoutes, Program.switchboxRoutes, h.placed, hchildren]
  exact bind_congr fun tile => congrArg (· >>= _) (Except.mapM_map_eq (fun id => by rw [h.op]) _)

/-- A renumbering keeps what is known of a device. -/
theorem summary (h : p.Renumbers r q) (device : OpId) : q.summary (r device) =
    p.summary device := by
  rw [Program.summary, Program.summary]
  simp only [h.findIn, List.isEmpty_map, Except.mapM_map_eq h.placed,
    Except.mapM_map_eq h.lockSummary, Except.mapM_map_eq h.bufferSummary,
    Except.mapM_map_eq h.switchboxRoutes, h.modelOf]

/-- A renumbering keeps what is known of all devices. -/
theorem summaries (h : p.Renumbers r q) : q.summaries = p.summaries := by
  rw [Program.summaries, Program.summaries, h.devices, Except.mapM_map_eq h.summary]

/-- A renumbering keeps the host glue. -/
theorem hostGlue (h : p.Renumbers r q) : q.hostGlue = p.hostGlue := by
  rw [Program.hostGlue, Program.hostGlue, h.summaries]

/-- A renumbering keeps the device configuration. -/
theorem deviceConfig (h : p.Renumbers r q) : q.deviceConfig = p.deviceConfig := by
  rw [Program.deviceConfig, Program.deviceConfig, h.summaries]

/-! ### Sizes of a package -/

/-- A renumbering keeps the number of buffer arguments. -/
theorem bufferArgs (h : p.Renumbers r q) : q.bufferArgs = p.bufferArgs := by
  rw [Program.bufferArgs, Program.bufferArgs, h.findAll, h.filterMap_op _ (·.intAttr? "arg_idx")]

/-- A renumbering keeps the number of columns. -/
theorem columnWidth (h : p.Renumbers r q) : q.columnWidth = p.columnWidth := by
  rw [Program.columnWidth, Program.columnWidth, h.findAll, h.filterMap_op _ (·.operandInt? 0)]

end Program.Renumbers

end TileFlow

/-! ## Stages -/

namespace TileFlow

open TileFlow.Action

variable {r : OpId → OpId} {n : Nat} {p q : Program}

namespace Stage

/-- An action for each device goes in step if the action for one does. -/
theorem inStep_onEachDevice {action : OpId → Action Unit}
    (h : ∀ device, InStep r n (action device) (action (r device)) id) :
    InStep r n (onEachDevice action) (onEachDevice action) id :=
  .get_bind fun p q hpq hn => by
    rw [hpq.devices]
    exact .forM fun device _ => (h device).mono hn

/-- Every stage of the compiler goes in step. -/
theorem inStep_action {s : Stage} (hs : s ∈ builtin) : InStep r 0 s.action s.action id := by
  cases s with
  | lowerAffine => exact inStep_lowerAffine
  | canonicalizeDevice => exact inStep_wrapInDevice
  | assignLockIds => exact inStep_onEachDevice inStep_assignLockIds
  | registerObjectFifos =>
      exact inStep_onEachDevice fun device => inStep_forEach
        (inStep_registerProcess device) device _
  | lowerObjectFifos =>
      exact inStep_onEachDevice fun device => inStep_forEach
        (inStep_lowerObjectFifo device) device _
  | broadcastPackets =>
      exact inStep_onEachDevice fun device => inStep_forEach inStep_lowerBroadcast device _
  | routePacketFlows =>
      exact inStep_onEachDevice fun device => inStep_forEach
        (inStep_routePacketFlow device) device _
  | lowerMulticast =>
      exact inStep_onEachDevice fun device => inStep_forEach inStep_lowerMulticast device _
  | assignBufferAddresses => exact inStep_onEachDevice inStep_assignBufferAddresses
  | lowerStructured => exact inStep_lowerStructured
  | routeCircuitFlows => exact inStep_onEachDevice inStep_routeCircuitFlows
  | lowerTransfers =>
      exact inStep_onEachDevice fun device => inStep_forEach (inStep_lowerTransfer device) device _
  | localizeLocks => exact inStep_onEachDevice inStep_localizeLocks
  | normalizeAddressSpaces => exact inStep_onEachDevice inStep_dropMemorySpaces
  | lowerCores => exact inStep_lowerCores
  | dropRuntime => exact inStep_dropRuntime
  | dropUnused => exact inStep_dropUnused
  | mergeEqual => exact inStep_mergeEqual
  | lowerNames => exact inStep_lowerNames
  | custom name scope action => simp [builtin] at hs

/-- A stage ends alike on a program and on a renumbering of it, and leaves a renumbering. -/
theorem run_renumbers {s : Stage} (hs : s ∈ builtin) (h : p.Renumbers r q) :
    (s.run p).2.Renumbers r (s.run q).2 ∧ (s.run q).1 = (s.run p).1 := by
  obtain ⟨hleft, -, hresult⟩ := inStep_action hs p q h (Nat.zero_le _)
  refine ⟨hleft, ?_⟩
  show (runOn s.action q).1.mapError _ = (runOn s.action p).1.mapError _
  rw [hresult]
  cases (runOn s.action p).1 <;> rfl

/-- A stage leaves programs that are equal as trees equal as trees. -/
theorem run_sameTree {s : Stage} (hs : s ∈ builtin) (h : p.SameTree q) :
    (s.run p).2.SameTree (s.run q).2 := by
  have hp := (run_renumbers hs (Program.renumbers_compact h.left h.live_left)).1
  rw [h.compact_eq] at hp
  exact hp.sameTree (run_renumbers hs (Program.renumbers_compact h.right h.live_right)).1

end Stage

/-- Programs that are equal as trees cannot be told apart: every stage of the compiler succeeds on
both or gives up on both with the same error, and leaves programs that are equal as trees again, and
every translation and the sizes of a package are the same, or the translation fails with the same
error. -/
theorem Program.SameTree.indistinguishable (h : p.SameTree q) :
    (∀ s ∈ Stage.builtin,
      (s.run p).1 = (s.run q).1 ∧ (s.run p).2.SameTree (s.run q).2) ∧
    p.hostGlue = q.hostGlue ∧ p.deviceConfig = q.deviceConfig ∧
    p.instructionWords = q.instructionWords ∧ p.backendText = q.backendText ∧
    p.targetArch = q.targetArch ∧ p.coreSymbols = q.coreSymbols ∧
    p.bufferArgs = q.bufferArgs ∧ p.columnWidth = q.columnWidth := by
  refine ⟨fun s hs => ⟨?_, Stage.run_sameTree hs h⟩, ?_⟩
  · exact h.eq (f := fun p => (s.run p).1) fun _ _ _ h => (Stage.run_renumbers hs h).2
  · exact ⟨h.eq fun _ _ _ h => h.hostGlue, h.eq fun _ _ _ h => h.deviceConfig,
      h.eq fun _ _ _ h => h.instructionWords, h.eq fun _ _ _ h => h.backendText,
      h.eq fun _ _ _ h => h.targetArch, h.eq fun _ _ _ h => h.coreSymbols,
      h.eq fun _ _ _ h => h.bufferArgs, h.eq fun _ _ _ h => h.columnWidth⟩

/-- A lock on a tile, and an operation that is dropped. -/
def bareSource : String :=
  "%t = aie.tile(0, 2)\naie.end\n%l = aie.lock(%t) \x7bsym_name = \"ready\"\x7d"

/-- The lock on its tile, in an explicit default device. -/
def wrappedSource : String :=
  "aie.device(xcvc1902) \x7b\n%t = aie.tile(0, 2)\n" ++
  "%l = aie.lock(%t) \x7bsym_name = \"ready\"\x7d\n\x7d"

/-- Without its terminator and in the default device, the lock is the one of the other source,
although the operations were created in another order and one has been erased. -/
theorem Program.SameTree.indistinguishable_wrapped : ∃ p p' q, Source.parse bareSource = .ok p ∧
    Stage.runEach [.canonicalizeDevice, .dropUnused] p = p' ∧ Source.parse wrappedSource = .ok q ∧
    p'.walk = [3, 0, 2] ∧ q.walk = [0, 1, 2] ∧ p'.SameTree q ∧
    (∀ s ∈ Stage.builtin,
      (s.run p').1 = (s.run q).1 ∧ (s.run p').2.SameTree (s.run q).2) ∧
    p'.hostGlue = q.hostGlue ∧ p'.deviceConfig = q.deviceConfig ∧
    p'.instructionWords = q.instructionWords ∧ p'.backendText = q.backendText ∧
    p'.targetArch = q.targetArch ∧ p'.coreSymbols = q.coreSymbols ∧
    p'.bufferArgs = q.bufferArgs ∧ p'.columnWidth = q.columnWidth := by
  obtain ⟨q, hq, hqwalk, hqlive, hcompact⟩ : ∃ q, Source.parse wrappedSource = .ok q ∧
      q.walk = [0, 1, 2] ∧ (∀ id ∈ q.walk, q.isLive id = true) ∧
      ((Source.parse bareSource).toOption.any fun p => decide
        ((Stage.runEach [.canonicalizeDevice, .dropUnused] p).walk = [3, 0, 2] ∧
          (∀ id ∈ (Stage.runEach [.canonicalizeDevice, .dropUnused] p).walk,
            (Stage.runEach [.canonicalizeDevice, .dropUnused] p).isLive id = true) ∧
          (Stage.runEach [.canonicalizeDevice, .dropUnused] p).compact = q.compact)) = true :=
    exists_ok_of_any (by decide +kernel)
  obtain ⟨p, hp, hwalk, hlive, hcompact⟩ := exists_ok_of_any hcompact
  have hstages : ∀ s ∈ [Stage.canonicalizeDevice, .dropUnused], s ∈ Stage.builtin := by
    simp [Stage.builtin]
  have htree := (Stage.runEach_orderly hstages (Source.orderly_of_parse hp)).tree
  have hsame := (Program.sameTree_iff_compact_eq htree (Source.orderly_of_parse hq).tree hlive
    hqlive).2 hcompact
  exact ⟨p, _, q, hp, rfl, hq, hwalk, hqwalk, hsame, hsame.indistinguishable⟩

end TileFlow
