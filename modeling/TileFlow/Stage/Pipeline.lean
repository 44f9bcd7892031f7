import TileFlow.Source.Parser
import TileFlow.Stage.Basic

/-!
# Pipelines

A pipeline is a list of stages that run one after the other until one gives up. Its text
groups consecutive stages on devices.

## Main definitions

* `Pipeline.canonicalize`, `Pipeline.ipu`, `Pipeline.unified`, `Pipeline.host`: the pipelines
  of the compiler.
* `Pipeline.run`: the effect of a pipeline on a program.
* `Pipeline.describe`: the text of a pipeline.
-/

namespace TileFlow

/-- A list of stages (`Pipeline`). -/
structure Pipeline where
  stages : List Stage

namespace Pipeline

/-- The canonical form that every branch starts from (`canonicalize`). -/
def canonicalize : Pipeline where
  stages := [.lowerAffine, .canonicalizeDevice, .assignLockIds, .registerObjectFifos,
    .lowerObjectFifos, .broadcastPackets, .routePacketFlows, .lowerMulticast,
    .assignBufferAddresses, .lowerStructured]

/-- The lowering of the runtime sequence (`ipu`). -/
def ipu : Pipeline where
  stages := [.lowerTransfers]

/-- The lowering of the cores (`unified`). -/
def unified : Pipeline where
  stages := [.localizeLocks, .normalizeAddressSpaces, .lowerCores, .dropRuntime, .dropUnused,
    .mergeEqual, .lowerNames, .dropUnused, .mergeEqual]

/-- The routing that the host configures (`host`). -/
def host : Pipeline where
  stages := [.routeCircuitFlows, .broadcastPackets, .routePacketFlows, .lowerMulticast]

/-- A pipeline with more stages at its end (`push`). -/
def extend (p : Pipeline) (stages : List Stage) : Pipeline :=
  ⟨p.stages ++ stages⟩

/-- The effect of stages one after the other, up to the first that gives up (in `run`). -/
def runStages : List Stage → Program → Except CompileError Unit × Program
  | [], p => (.ok (), p)
  | s :: rest, p =>
    match s.run p with
    | (.ok (), q) => runStages rest q
    | (.error e, q) => (.error e, q)

/-- The effect of a pipeline (`run`). -/
def run (l : Pipeline) (p : Program) : Except CompileError Unit × Program :=
  runStages l.stages p

/-- Names with commas between them. -/
def joinNames (names : List String) : String :=
  ",".intercalate names

/-- The text of the stages on devices collected so far, if there are any. -/
def closeGroup (group : List String) : List String :=
  if group.isEmpty then [] else ["aie.device(" ++ joinNames group ++ ")"]

/-- The parts of the text of stages, where `group` holds the names of the stages on devices
that directly precede them. -/
def partsFrom (group : List String) : List Stage → List String
  | [] => closeGroup group
  | s :: rest =>
    match s.scope with
    | .device => partsFrom (group ++ [s.name]) rest
    | .program => closeGroup group ++ s.name :: partsFrom [] rest

/-- The text of a pipeline (`describe`). -/
def describe (l : Pipeline) : String :=
  "builtin.module(" ++ joinNames (partsFrom [] l.stages) ++ ")"

end Pipeline

/-- The canonical program of a source text (`canonicalize`). -/
def canonicalizeSource (source : String) : Except CompileError Program :=
  match Source.parse source with
  | .error e => .error e
  | .ok p =>
    match Pipeline.canonicalize.run p with
    | (.ok (), q) => .ok q
    | (.error e, _) => .error e

end TileFlow
