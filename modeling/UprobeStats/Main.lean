import UprobeStats.ConfigResolver
import UprobeStats.Guardrail

/-! The executable: `main_impl` of `main.rs`. -/

namespace UprobeStats
open Rust Effect

def attach (dev : Device) (task : ResolvedTask) (probe : ResolvedProbe) : Prog PUnit :=
  bpfPerfEventOpen dev (some probe) probe.filename probe.offset task.pid probe.bpfProgramPath

/-- The threads that poll the maps of the task, and the errors that they return. -/
def pollMaps (dev : Device) : List String → Prog (List Error)
  | [] => pure []
  | mapPath :: mapPaths => do
    let result ← attempt (ask (.pollRegistry mapPath) (dev.pollRegistry · mapPath))
    let errors ← pollMaps dev mapPaths
    pure ((match result with | .ok _ => [] | .error e => [e]) ++ errors)

def runTask (dev : Device) (task : ResolvedTask) (probes : List ResolvedProbe) : Prog PUnit := do
  probes.forM (attach dev task)
  let _duration ← lift (tryU64 task.durationSeconds.toInt)
  let errors ← pollMaps dev task.bpfMapPaths
  let msg := ",".intercalate (errors.map fun e => "poll_registry error: " ++ e.text)
  lift (ensure (errors = []) s!"At least one thread returned error: {msg}")

/-- The config, once the flags and the guardrail have let it pass. -/
def readAllowedConfig (dev : Device) : Prog UprobestatsConfig := do
  lift (ensure dev.flags.enableUprobestats "enable_uprobestats disabled")
  lift (ensure dev.flags.uprobestatsSupportUpdateDeviceIdleTempAllowlist
    "uprobestats_support_update_device_idle_temp_allowlist disabled")
  lift (ensure dev.flags.executableMethodFileOffsets "executable_method_file_offsets disabled")
  let config ← lift dev.config
  let allowed ← lift (isAllowed config dev.isUserBuild true)
  lift (ensure allowed "uprobestats probing config disallowed on this device")
  pure config

def mainImpl (dev : Device) : Prog PUnit := do
  let config ← readAllowedConfig dev
  let task ← resolveSingleTask dev config
  -- The accessor that `resolve_probes` hands over is dropped when the function ends.
  onExit (do
    let probes ← resolveProbes dev task
    runTask dev task probes) (dropAccessor dev)

end UprobeStats
