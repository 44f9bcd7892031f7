import TileFlow.Package.Documents
import TileFlow.Tool.Session

/-!
# Packaging

The documents of a package are written next to the other artifacts, and a tool binds them and
the device configuration together.

## Main definitions

* `KernelSpec.bundle`: the documents and the package.
-/

namespace TileFlow.KernelSpec

/-- Writes the documents of a package into a directory and binds them to an output (`package`). -/
def bundle (spec : KernelSpec) (setting : Setting) (deviceConfig workDir output : String) :
    Session (List Artifact) := do
  let kernelsPath := Path.join workDir "kernels.json"
  let topologyPath := Path.join workDir "mem_topology.json"
  let partitionPath := Path.join workDir "aie_partition.json"
  let kernels ← Session.emit setting .kernelMetadata kernelsPath
    (.ok (setting.writeJson spec.kernels))
  let topology ← Session.emit setting .kernelMetadata topologyPath
    (.ok (setting.writeJson memoryTopology))
  let partition ← Session.emit setting .kernelMetadata partitionPath
    (.ok (setting.writeJson (spec.partition deviceConfig)))
  Session.runChecked setting "xclbinutil"
    ["--add-replace-section", s!"MEM_TOPOLOGY:JSON:{topologyPath}",
      "--add-kernel", kernelsPath,
      "--add-replace-section", s!"AIE_PARTITION:JSON:{partitionPath}",
      "--force", "--output", output]
  return [kernels, topology, partition] ++ Session.produced setting .xclbin output

end TileFlow.KernelSpec
