import TileFlow.Emit.Summary
import TileFlow.Text.Hex

/-!
# Host sources

Two texts that set up the devices of a routed program: the glue that a host program includes,
and the configuration that replays the same setup without a host.

## Main definitions

* `Program.hostGlue`: the glue, with accessors for the buffers.
* `Program.deviceConfig`: the configuration.
-/

namespace TileFlow

/-- The handle of the glue. -/
def glueHandle : String := "&(ctx->DevInst)"

/-- The handle of the configuration. -/
def configHandle : String := "devInst"

/-- A function of the glue that makes calls. -/
def glueFunction (name : String) (calls : List SetupCall) : String :=
  s!"int {name}(aie_libxaie_ctx_t *ctx) \x7b\n" ++ renderCalls glueHandle calls ++
    "  return 0;\n\x7d\n"

/-- The functions that read and write a buffer (in `translate_to_xaie`). -/
def BufferSummary.accessors (b : BufferSummary) : String :=
  let address := Text.hexAddress b.address
  s!"\n// {b.size} bytes at {address} on tile {b.tile.render}\n" ++
    s!"int32_t mlir_aie_read_buffer_{b.symbol}(aie_libxaie_ctx_t *ctx, int index) \x7b\n" ++
    "  u32 value;\n" ++
    s!"  XAie_DataMemRdWord({glueHandle}, {b.tile.location}, {address} + (index * 4), &value);\n" ++
    "  return value;\n\x7d\n" ++
    s!"void mlir_aie_write_buffer_{b.symbol}(aie_libxaie_ctx_t *ctx, int index, int32_t value) " ++
    "\x7b\n" ++
    s!"  XAie_DataMemWrWord({glueHandle}, {b.tile.location}, {address} + (index * 4), value);\n" ++
    "\x7d\n"

/-- The glue of devices (in `translate_to_xaie`). -/
def glueText (devices : List DeviceSummary) : String :=
  "// Generated libxaie configuration; include from the host program.\n\n" ++
    glueFunction "mlir_aie_configure_cores" (devices.flatMap (·.loadCalls)) ++ "\n" ++
    glueFunction "mlir_aie_start_cores" (devices.flatMap (·.enableCalls)) ++ "\n" ++
    glueFunction "mlir_aie_initialize_locks" (devices.flatMap (·.lockCalls)) ++ "\n" ++
    glueFunction "mlir_aie_configure_switchboxes" (devices.flatMap (·.routeCalls)) ++
    String.join ((devices.flatMap (·.buffers)).map (·.accessors))

/-- The lines of the configuration that set up one device. -/
def DeviceSummary.configLines (s : DeviceSummary) : String :=
  s!"  // device {s.model.name}\n" ++
    renderCalls configHandle (s.resetCalls ++ s.lockCalls ++ s.routeCalls)

/-- The configuration of devices (in `translate_to_cdo`). -/
def configText (devices : List DeviceSummary) : String :=
  "// Generated device configuration.\n#include <xaiengine.h>\n\n" ++
    s!"void addInitConfigToCDO(XAie_DevInst *{configHandle}) \x7b\n" ++
    String.join (devices.map (·.configLines)) ++ "\x7d\n\n" ++
    s!"void addCoreEnableToCDO(XAie_DevInst *{configHandle}) \x7b\n" ++
    renderCalls configHandle (devices.flatMap (·.enableCalls)) ++ "\x7d\n"

namespace Program

/-- The glue of a routed program (`translate_to_xaie`). -/
def hostGlue (p : Program) : Except CompileError String :=
  match p.summaries with
  | .ok devices => .ok (glueText devices)
  | .error e => .error (.emission "xaie" e)

/-- The configuration of a routed program (`translate_to_cdo`). -/
def deviceConfig (p : Program) : Except CompileError String :=
  match p.summaries with
  | .ok devices => .ok (configText devices)
  | .error e => .error (.emission "cdo" e)

end Program

end TileFlow
