import UprobeStats.Cxx.ConfigResolver
import UprobeStats.Cxx.Guardrail

/-! The executable of the C++ program: `main` of `UprobeStats.cpp`, up to the threads that poll. -/

namespace UprobeStats.Cxx
open Rust Effect

def updateDeviceIdleTempAllowlist : String := "prog_ProcessManagement_uprobe_update_device_idle_temp_allowlist"
def addBoundClientUid : String := "prog_MalwareSignal_uprobe_add_bound_client_uid"
def setComponentEnabledSetting : String := "prog_MalwareSignal_uprobe_set_component_enabled_setting"

section Device
variable (dev : Device)

def bpfPerfEventOpen (probe : ResolvedProbe) (pid : Int32) (bpfProgramPath : String) : Prog Int32 :=
  ask (.perfEventOpen (some ⟨probe.probeConfig, probe.filename, probe.offset, bpfProgramPath⟩) probe.filename
    probe.offset pid bpfProgramPath) fun requests => .ok (dev.perfEventOpen requests)

/-- What the loop over the probes does with one. The gates look at the file that the probe is in; the one for
    `updateDeviceIdleTempAllowlist` only logs an error and does not skip the probe. -/
def attach (pid : Int32) (probe : ResolvedProbe) : Prog PUnit :=
  if probe.filename = addBoundClientUid ∧ !dev.flags.uprobestatsMonitorDisruptiveAppActivities then pure ⟨⟩
  else if probe.filename = setComponentEnabledSetting ∧ !dev.flags.uprobestatsMonitorDisruptiveAppActivities then
    pure ⟨⟩
  else do
    let openResult ← bpfPerfEventOpen dev probe pid (prefixBpf (probe.probeConfig.bpfName.getD ""))
    lift (ensure (openResult = 0) "Failed to open bpf")

/-- The maps that a thread is started for. -/
def threads (bpfMaps : List String) : List String :=
  (bpfMaps.filter fun mapPath =>
    !(mapPath = "map_MalwareSignal_output_buf" && !dev.flags.uprobestatsMonitorDisruptiveAppActivities)).map prefixBpf

variable (reader : List UInt8 → Option JsonLine)

/-- The steps before the attach loop: a config that passes them is accepted. -/
def accept : Prog (ResolvedTask × List ResolvedProbe) := do
  lift (ensure dev.flags.enableUprobestats "uprobestats disabled by flag. Exiting.")
  let config ← lift dev.config
  lift (ensure (isAllowed kAllowedMethodPrefixes config (buildType dev) dev.flags.executableMethodFileOffsets)
    "uprobestats probing config disallowed on this device.")
  let resolvedTask ← resolveSingleTask dev config
  let resolvedProbes ← resolveProbes dev reader resolvedTask.taskConfig
  pure (resolvedTask, resolvedProbes)

def main : Prog (List String) := do
  let (resolvedTask, resolvedProbes) ← accept dev reader
  resolvedProbes.forM (attach dev resolvedTask.pid)
  pure (threads dev resolvedTask.taskConfig.bpfMaps)

end Device

end UprobeStats.Cxx
