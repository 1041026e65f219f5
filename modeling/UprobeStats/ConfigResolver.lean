import UprobeStats.Art
import UprobeStats.BinderTransaction
import UprobeStats.Process

/-! Resolves UprobestatsConfig protos into a list of concrete probes to be attached:
    `config_resolver.rs`. -/

namespace UprobeStats
open Rust Effect Text

def isBpfFileEnabled (flags : Flags) (bpfProgOrMapName : String) : Bool :=
  if contains bpfProgOrMapName "DisruptiveApp" then flags.uprobestatsMonitorDisruptiveAppActivities
  else if contains bpfProgOrMapName "prog_BitmapAllocation_uprobe_bitmap_creation_for_snapshot" ||
      contains bpfProgOrMapName "prog_BitmapAllocation_uprobe_apply_free_function" then
    flags.enableBitmapSnapshot
  else if contains bpfProgOrMapName "BitmapAllocation" then
    flags.enableBitmapInstrumentation || flags.enableBitmapSnapshot
  else if contains bpfProgOrMapName "Binder" then flags.enableBinderTransaction
  else true

def ensureEnabled (dev : Device) (bpfProgOrMapName : String) : Prog PUnit :=
  lift (ensure (isBpfFileEnabled dev.flags bpfProgOrMapName) s!"{bpfProgOrMapName} is disabled by flag")

/-! ### The task -/

/-- Validates a single task proto and adds additional info. -/
def resolveSingleTask (dev : Device) (config : UprobestatsConfig) : Prog ResolvedTask := do
  let task ← lift (okOr config.tasks.head? "No tasks found in config")
  task.bpfMaps.forM (ensureEnabled dev)
  let durationSeconds ← lift (okOr task.durationSeconds "Task duration is required")
  lift (ensure (0 < durationSeconds) "Task duration must be greater than 0")
  let targetProcessSelection := TargetProcessSelection.enumValueOrDefault (task.targetProcessSelection.getD 0)
  let duration ← lift (tryU64 durationSeconds.toInt)
  let resolvedProcess ← resolveProcess dev task.targetProcessName targetProcessSelection (1000 * duration.toNat)
  pure {
    durationSeconds
    task
    processName := resolvedProcess.name
    pid := resolvedProcess.pid
    uid := resolvedProcess.uid
    bpfMapPaths := (task.bpfMaps.map prefixBpf).dedup }

/-! ### Offsets -/

/-- The loop of the retries; a binder failure other than an illegal state ends it. -/
def retryOffsets (dev : Device) (target : TargetProcess) (method : MethodDescriptor) :
    Nat → Prog (Option ExecutableMethodFileOffsets)
  | 0 => do
    match ← getOffsets dev target method with
    | .ok offsets => pure offsets
    | .error _ => throw (.message "Failed after 5 retries, last error")
  | retries + 1 => do
    match ← getOffsets dev target method with
    | .ok offsets => pure offsets
    | .error status =>
      if status.exceptionCode ≠ -8 then throw (.message "Unexpected status")
      else if status.serviceSpecificError ≠ -5 then throw (.message "Unexpected service specific error")
      else retryOffsets dev target method retries

def getExecutableMethodFileOffsetsWithRetry (dev : Device) (target : TargetProcess) (method : MethodDescriptor) :
    Prog (Option ExecutableMethodFileOffsets) :=
  if !dev.flags.useProcessObserverApi then do
    match ← getOffsets dev target method with
    | .ok offsets => pure offsets
    | .error _ => throw (.message "Failed to get executable method file offsets")
  else retryOffsets dev target method 5

/-! ### Binder filters -/

def binderBpfProgramName : String := "Binder_uprobe_exec_transact_internal"

def writeFilter (filter : BinderTransactionFilter) : Prog PUnit := do
  let interfaceName ← lift (okOr filter.interfaceName "Binder transaction filter must have an interface name")
  lift (ensure (filter.methodIds ≠ []) "Binder transaction filter must have at least one method id")
  let codes ← lift (filter.methodIds.mapM fun methodId => tryU64 methodId.toInt)
  put interfaceName codes .noExist

def writeBinderTransactionFilterToBinderBpfMap (probe : ProbeConfig) : Prog PUnit := do
  lift (ensure (probe.binderTransactionFilters ≠ []) "Binder transaction probe must have at least one filter")
  probe.binderTransactionFilters.forM writeFilter

def ensureAccessor (dev : Device) : Prog PUnit := do
  let w ← get
  if w.accessor then pure ⟨⟩ else newAccessor dev

/-! ### The probes -/

/-- A probe whose method is named by its class: the offsets API knows where it is. -/
def resolveByOffsetsApi (dev : Device) (resolvedTask : ResolvedTask) (probe : ProbeConfig)
    (fullyQualifiedClassName bpfProgramPath : String) : Prog ResolvedProbe := do
  let methodName ← lift (okOr probe.methodName "method_name is required")
  let uid ← lift (tryU32 resolvedTask.uid.toInt)
  let target ← lift (TargetProcess.new uid resolvedTask.pid resolvedTask.processName)
  let method ← lift (MethodDescriptor.new fullyQualifiedClassName methodName probe.fullyQualifiedParameters)
  let offsets ← getExecutableMethodFileOffsetsWithRetry dev target method
  let offsets ← lift (okOr offsets s!"Failed to get offsets for class: {fullyQualifiedClassName}")
  let offset ← lift ((tryI32 offsets.methodOffset.toNat).mapError fun _ =>
    .message "Failed to convert method offset to i32: out of range integral type conversion attempted")
  pure { probe, bpfProgramPath, offset, filename := offsets.containerPath }

/-- The first file in which `oatdump` finds the method, and its offset there. -/
def findInOatFiles (dev : Device) (methodSignature : String) : List String → Prog (Option (String × Int32))
  | [] => pure none
  | filePath :: filePaths => do
    let found ← attempt (getMethodOffsetFromOatdump dev filePath methodSignature)
    let foundOffset := (found.toOption.bind id).getD 0
    if foundOffset > 0 then pure (some (filePath, foundOffset))
    else findInOatFiles dev methodSignature filePaths

def resolveByOatdump (dev : Device) (probe : ProbeConfig) (bpfProgramPath : String) : Prog ResolvedProbe := do
  let methodSignature ← lift (okOr probe.methodSignature "method_signature is required")
  let found ← findInOatFiles dev methodSignature probe.filePaths
  let (filename, offset) ← lift (okOr found s!"Failed to get offset for method: {methodSignature}")
  pure { probe, bpfProgramPath, filename, offset }

def armBinder (dev : Device) (probe : ResolvedProbe) : Prog PUnit :=
  if contains probe.bpfProgramPath binderBpfProgramName then do
    ensureAccessor dev
    writeBinderTransactionFilterToBinderBpfMap probe.probe
  else pure ⟨⟩

def resolveProbe (dev : Device) (resolvedTask : ResolvedTask) (probe : ProbeConfig) : Prog ResolvedProbe := do
  let bpfName ← lift (okOr probe.bpfName "bpf_name is required")
  ensureEnabled dev bpfName
  match probe.fullyQualifiedClassName with
  | some fullyQualifiedClassName => do
    let resolvedProbe ← resolveByOffsetsApi dev resolvedTask probe fullyQualifiedClassName (prefixBpf bpfName)
    armBinder dev resolvedProbe
    pure resolvedProbe
  | none => resolveByOatdump dev probe (prefixBpf bpfName)

/-- Validates the probe protos and adds additional info. The accessor to the Binder map, once open, is
    dropped on an error and otherwise left to the caller. -/
def resolveProbes (dev : Device) (resolvedTask : ResolvedTask) : Prog (List ResolvedProbe) :=
  onError (resolvedTask.task.probeConfigs.mapM (resolveProbe dev resolvedTask)) (dropAccessor dev)

end UprobeStats
