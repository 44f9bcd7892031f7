import TileFlow.Files.Output

/-!
# Artifacts

An artifact is a file that a compilation produced and kept, with what it is for. The text of
an artifact may turn out not to exist after its file was opened: the file is removed then.
Two artifacts can be bound together, so that both stay or none.

## Main definitions

* `Artifact`: a kept file and its kind.
* `emit`: one artifact.
* `emitPair`: two artifacts that stay together or not at all.
-/

namespace TileFlow

/-- What an artifact is for (`ArtifactKind`). -/
inductive ArtifactKind where
  | llvmIr
  | optimizedLlvmIr
  | object
  | coreElf
  | ipuInstructions
  | hostGlue
  | deviceConfig
  | kernelMetadata
  | xclbin
  deriving DecidableEq, Repr

namespace ArtifactKind

/-- The name under which a kind is reported. -/
def name : ArtifactKind → String
  | llvmIr => "LlvmIr"
  | optimizedLlvmIr => "OptimizedLlvmIr"
  | object => "Object"
  | coreElf => "CoreElf"
  | ipuInstructions => "IpuInstructions"
  | hostGlue => "HostGlue"
  | deviceConfig => "DeviceConfig"
  | kernelMetadata => "KernelMetadata"
  | xclbin => "Xclbin"

/-- All kinds. -/
def all : List ArtifactKind :=
  [llvmIr, optimizedLlvmIr, object, coreElf, ipuInstructions, hostGlue, deviceConfig,
    kernelMetadata, xclbin]

/-- The kind with a name. -/
def ofName? (name : String) : Option ArtifactKind :=
  all.find? (·.name == name)

end ArtifactKind

/-- A file that was produced and kept (`Artifact`). -/
structure Artifact where
  kind : ArtifactKind
  path : String
  deriving DecidableEq, Repr

namespace Artifact

/-- The output file of an artifact, opened empty. -/
def openOutput (directory : Location) (a : Artifact) (t : FileTree) :
    Except CompileError (OutputFile × FileTree) :=
  match OutputFile.create directory a.path t with
  | .ok opened => .ok opened
  | .error e => .error (.artifactOpen a.path e)

/-- Writes a text to the output file of an artifact, if there is one. -/
def writeText (o : OutputFile) (text : Except CompileError String) (t : FileTree) :
    Except CompileError (OutputFile × FileTree) :=
  match text with
  | .error e => .error e
  | .ok s => (o.write (.ofText s) t).mapError .write

/-- The tree in which an output file stays, or is gone if it cannot be written to the end. -/
def keepOutput (directory : Location) (o : OutputFile) (t : FileTree) :
    Except CompileError Unit × FileTree :=
  match o.keep t with
  | .error e => (.error (.write e), o.discard directory t)
  | .ok t => (.ok (), t)

/-- The tree with an artifact written and kept (`emit_artifact`). Without a text the file is
removed. -/
def emit (directory : Location) (a : Artifact) (text : Except CompileError String)
    (t : FileTree) : Except CompileError Artifact × FileTree :=
  match a.openOutput directory t with
  | .error e => (.error e, t)
  | .ok (o, t) =>
    match writeText o text t with
    | .error e => (.error e, o.discard directory t)
    | .ok (o, t) =>
      match keepOutput directory o t with
      | (.error e, t) => (.error e, t)
      | (.ok (), t) => (.ok a, t)

/-- The tree with two artifacts written and kept, the first written before the second is opened
(`emit_artifact_pair`). If one of them cannot be, neither stays, but for a first one that was kept
before the second could not be written to its end. -/
def emitPair (directory : Location) (a : Artifact) (text : Except CompileError String)
    (b : Artifact) (text' : Except CompileError String) (t : FileTree) :
    Except CompileError (Artifact × Artifact) × FileTree :=
  match a.openOutput directory t with
  | .error e => (.error e, t)
  | .ok (o, t) =>
    match writeText o text t with
    | .error e => (.error e, o.discard directory t)
    | .ok (o, t) =>
      match b.openOutput directory t with
      | .error e => (.error e, o.discard directory t)
      | .ok (o', t) =>
        match writeText o' text' t with
        | .error e => (.error e, o.discard directory (o'.discard directory t))
        | .ok (o', t) =>
          match keepOutput directory o t with
          | (.error e, t) => (.error e, o'.discard directory t)
          | (.ok (), t) =>
            match keepOutput directory o' t with
            | (.error e, t) => (.error e, t)
            | (.ok (), t) => (.ok (a, b), t)

end Artifact

end TileFlow
