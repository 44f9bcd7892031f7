import TileFlow.Proofs.Stage.Edits

/-!
# Processes on object FIFOs

The stage that turns registered processes into loops creates cores with their terminators, and loops
with an acquire, a call and a release, and leaves no registration in any device.

## Main definitions

* `EditRule.processes`: the edits of the stage.
* `ProcessRun`: the steps in which a process becomes a loop.

## Main results

* `registerProcesses_edits`: what the stage does.
-/

namespace TileFlow

open TileFlow.Action

variable {p q : Program} {device : OpId}

/-- The operations that a process is made of. -/
def processNames : List String :=
  ["aie.core", "aie.end", "scf.for", "aie.objectfifo.acquire", "func.call",
    "aie.objectfifo.release"]

/-- Whether a FIFO uses a value. -/
def Program.FifoUses (p : Program) (v : String) : Prop :=
  ∃ fifo < p.slots.size, (p.op fifo).is "aie.objectfifo" = true ∧ .value v ∈ (p.op fifo).operands

/-- Registrations are erased. Cores and loops are created, and what they are made of, and use only
values that FIFOs use. -/
def EditRule.processes : EditRule where
  creates p _ op := op.result = none ∧ op.name ∈ processNames ∧
    ∀ v, .value v ∈ op.operands → p.FifoUses v
  changes _ _ _ := False
  erases p id := (p.op id).is "aie.objectfifo.register_process" = true

/-- Registering processes leaves devices alone. -/
theorem EditRule.processes_sparesDevices : EditRule.processes.SparesDevices where
  creates _ _ _ hop := Operation.not_is_of_mem hop.2.1 (by decide)
  changes _ _ _ hop := hop.elim
  erases _ _ hop := Operation.not_is_of_is hop (by decide)

/-- Registering processes leaves none unregistered. -/
theorem EditRule.processes_dissolves :
    EditRule.processes.Dissolves "aie.objectfifo.register_process" where
  creates _ _ _ hop := Operation.not_is_of_mem hop.2.1 (by decide)
  changes _ _ _ hop := hop.elim
  erases _ _ hop := hop

/-- What registering a process creates. -/
theorem EditRule.processes_names : EditRule.processes.Names processNames where
  creates _ _ _ hop := hop.2.1
  changes _ _ _ hop := hop.elim

/-- An operation of a process that is put after the children of another one. -/
theorem appendPart_edits {parent id : OpId} {op : Operation} (hop : op.result = none)
    (hname : op.name ∈ processNames) (huses : ∀ v, .value v ∈ op.operands → p.FifoUses v)
    (h : runOn (Action.append parent op) p = (.ok id, q)) : p.Edits .processes q :=
  append_edits h ⟨hop, hname, huses⟩ fun v hv => by rw [hop] at hv; cases hv

/-- A core is created by the rules. -/
theorem coreFor_edits {tile : String} {core : OpId} (htile : p.FifoUses tile)
    (h : runOn (coreFor device tile) p = (.ok core, q)) : p.Edits .processes q := by
  rw [coreFor, get_bind_ok] at h
  split at h
  · obtain ⟨-, rfl⟩ := pure_ok.1 h
    exact .refl
  · obtain ⟨_, r, hcore, h⟩ := bind_ok.1 h
    obtain ⟨_, s, hend, h⟩ := bind_ok.1 h
    obtain ⟨-, rfl⟩ := pure_ok.1 h
    refine (appendPart_edits rfl (by simp [processNames]) (fun v hv => ?_) hcore).trans
      (appendPart_edits rfl (by simp [processNames]) (fun v hv => absurd hv List.not_mem_nil) hend)
    cases List.mem_singleton.1 hv
    exact htile

/-- An operation of a process is appended by the rules. -/
theorem appendToCore_edits {core id : OpId} {op : Operation} (hop : op.result = none)
    (hname : op.name ∈ processNames) (huses : ∀ v, .value v ∈ op.operands → p.FifoUses v)
    (h : runOn (appendToCore core op) p = (.ok id, q)) : p.Edits .processes q := by
  rw [appendToCore, get_bind_ok] at h
  split at h
  · split at h
    · exact insertBefore_edits h (fun _ => ⟨hop, hname, huses⟩)
        fun v hv => by rw [hop] at hv; cases hv
    · exact appendPart_edits hop hname huses h
  · exact appendPart_edits hop hname huses h

/-- The steps in which a registered process becomes a loop in a core, with the programs between
them. -/
structure ProcessRun (device registration : OpId) (p : Program) where
  name : String
  function : String
  fifo : OpId
  side : Side
  value : String
  core : OpId
  loop : OpId
  acquire : OpId
  call : OpId
  release : OpId
  manned : Program
  looped : Program
  acquired : Program
  called : Program
  released : Program
  name_eq : (p.op registration).operandSymbol? 0 = some name
  fifo_eq : p.fifo? device name = some fifo
  side_eq : Side.ofName? (((p.op registration).operandText? 1).getD "consume") = some side
  value_eq : (p.op fifo).operandValue? side.tileIndex = some value
  core_run : runOn (coreFor device value) p = (.ok core, manned)
  loop_run : runOn (appendToCore core (loopOf (((p.op registration).intAttr? "count").getD 1)))
    manned = (.ok loop, looped)
  acquire_run : runOn (Action.append loop (accessOf "aie.objectfifo.acquire" name side)) looped =
    (.ok acquire, acquired)
  call_run : runOn (Action.append loop { name := "func.call", operands := [.symbol function] })
    acquired = (.ok call, called)
  release_run : runOn (Action.append loop (accessOf "aie.objectfifo.release" name side)) called =
    (.ok release, released)

/-- A successful run of `registerProcess`, taken apart. -/
theorem registerProcess_run {registration : OpId}
    (h : runOn (registerProcess device registration) p = (.ok (), q)) :
    ∃ run : ProcessRun device registration p, q = run.released.erase registration := by
  rw [registerProcess, get_bind_ok] at h
  obtain ⟨name, hname, h⟩ := orFail_bind_ok.1 h
  obtain ⟨function, -, h⟩ := orFail_bind_ok.1 h
  obtain ⟨fifo, hfifo, h⟩ := orFail_bind_ok.1 h
  obtain ⟨side, hside, h⟩ := orFail_bind_ok.1 h
  obtain ⟨value, hvalue, h⟩ := orFail_bind_ok.1 h
  obtain ⟨core, p₁, hcore, h⟩ := bind_ok.1 h
  obtain ⟨loop, p₂, hloop, h⟩ := bind_ok.1 h
  obtain ⟨acquire, p₃, hacquire, h⟩ := bind_ok.1 h
  obtain ⟨call, p₄, hcall, h⟩ := bind_ok.1 h
  obtain ⟨release, p₅, hrelease, h⟩ := bind_ok.1 h
  rw [runOn_erase, Prod.mk.injEq] at h
  exact ⟨⟨name, function, fifo, side, value, core, loop, acquire, call, release, p₁, p₂, p₃, p₄, p₅,
    hname, hfifo, hside, hvalue, hcore, hloop, hacquire, hcall, hrelease⟩, h.2.symm⟩

/-- The FIFO of a process uses the value of the core. -/
theorem ProcessRun.fifoUses {registration : OpId} (run : ProcessRun device registration p)
    (hp : p.Sound) : p.FifoUses run.value := by
  obtain ⟨hin, his⟩ := List.mem_filter.1 (List.mem_of_find?_eq_some run.fifo_eq)
  exact ⟨run.fifo, hp.lt_size_of_walkIn hin, his, Operation.mem_operands_of_value run.value_eq⟩

/-- The run creates cores and accesses by the rules. -/
theorem ProcessRun.edits {registration : OpId} (run : ProcessRun device registration p)
    (hp : p.Sound) : p.Edits .processes run.released := by
  have hlooped := (coreFor_edits (run.fifoUses hp) run.core_run).trans (appendToCore_edits rfl
    (by simp [processNames, loopOf]) (fun v hv => by simp [loopOf] at hv) run.loop_run)
  have hcalled := (hlooped.trans (appendPart_edits rfl (by simp [processNames, accessOf])
    (fun v hv => by simp [accessOf] at hv) run.acquire_run)).trans
      (appendPart_edits rfl (by simp [processNames]) (fun v hv => by simp at hv) run.call_run)
  exact hcalled.trans (appendPart_edits rfl (by simp [processNames, accessOf])
    (fun v hv => by simp [accessOf] at hv) run.release_run)

/-- Registering one process creates by the rules and erases the registration. -/
theorem registerProcess_ok {registration : OpId} (hp : p.Sound)
    (h : runOn (registerProcess device registration) p = (.ok (), q)) :
    ∃ r, p.Edits .processes r ∧ q = r.erase registration := by
  obtain ⟨run, rfl⟩ := registerProcess_run h
  exact ⟨_, run.edits hp, rfl⟩

/-- The loops of one device. -/
theorem registerProcesses_device (hp : p.Sound) (hdevice : device ∈ p.devices)
    (h : runOn (registerProcesses device) p = (.ok (), q)) : p.Edits .processes q := by
  rw [registerProcesses, get_bind_ok] at h
  exact (Stage.dissolves_device EditRule.processes_sparesDevices EditRule.processes_dissolves hp
    hdevice h fun _ _ _ hr _ _ _ _ hrun => registerProcess_ok hr hrun).1

/-- Registrations are replaced by loops in cores, and none is left in any device. -/
theorem registerProcesses_edits (hp : p.Sound)
    (h : runOn Stage.registerObjectFifos.action p = (.ok (), q)) :
    p.Edits .processes q ∧ ∀ device ∈ q.devices, ∀ id ∈ q.walkIn device,
      (q.op id).is "aie.objectfifo.register_process" = false :=
  Stage.dissolves EditRule.processes_sparesDevices EditRule.processes_dissolves hp h
    fun _ _ _ _ hr _ _ _ _ _ hrun => registerProcess_ok hr hrun

end TileFlow
