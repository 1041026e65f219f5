import UprobeStats.Lib.Rust
import Mathlib.Data.UInt

/-! The messages of `config.proto`, and what the resolver makes of a task and its probes. -/

namespace UprobeStats

structure BinderTransactionFilter where
  interfaceName : Option String := none
  methodIds : List Int64 := []
  deriving DecidableEq

structure ProbeConfig where
  bpfName : Option String := none
  filePaths : List String := []
  methodSignature : Option String := none
  fullyQualifiedClassName : Option String := none
  methodName : Option String := none
  fullyQualifiedParameters : List String := []
  binderTransactionFilters : List BinderTransactionFilter := []
  deriving DecidableEq

structure StatsdLoggingConfig where
  atomId : Option Int64 := none
  primitiveArgumentPositions : List Int32 := []
  deriving DecidableEq

inductive TargetProcessSelection where
  | unknown
  | specificProcessName
  | anyAppProcessOnStart
  | specificAppProcessOnStart
  deriving DecidableEq, Repr

/-- The value of an enumeration field, or the default one when its number is not known. -/
def TargetProcessSelection.enumValueOrDefault (value : Int32) : TargetProcessSelection :=
  if value = 1 then .specificProcessName
  else if value = 2 then .anyAppProcessOnStart
  else if value = 3 then .specificAppProcessOnStart
  else .unknown

def TargetProcessSelection.name : TargetProcessSelection → String
  | unknown => "UNKNOWN"
  | specificProcessName => "SPECIFIC_PROCESS_NAME"
  | anyAppProcessOnStart => "ANY_APP_PROCESS_ON_START"
  | specificAppProcessOnStart => "SPECIFIC_APP_PROCESS_ON_START"

structure Task where
  probeConfigs : List ProbeConfig := []
  bpfMaps : List String := []
  targetProcessName : Option String := none
  durationSeconds : Option Int32 := none
  statsdLoggingConfig : Option StatsdLoggingConfig := none
  targetProcessSelection : Option Int32 := none
  deriving DecidableEq

structure UprobestatsConfig where
  tasks : List Task := []
  deriving DecidableEq

/-- Validated probe proto + probe target's code filename and offset. -/
structure ResolvedProbe where
  probe : ProbeConfig
  filename : String
  offset : Int32
  bpfProgramPath : String
  deriving DecidableEq

/-- Validated task proto + probe target's pid. -/
structure ResolvedTask where
  task : Task
  durationSeconds : Int32
  processName : String
  pid : Int32
  uid : Int32
  bpfMapPaths : List String
  deriving DecidableEq

structure Flags where
  enableUprobestats : Bool
  uprobestatsSupportUpdateDeviceIdleTempAllowlist : Bool
  executableMethodFileOffsets : Bool
  uprobestatsMonitorDisruptiveAppActivities : Bool
  enableBitmapInstrumentation : Bool
  enableBitmapSnapshot : Bool
  enableBinderTransaction : Bool
  useProcessObserverApi : Bool

def prefixBpf (path : String) : String := "/sys/fs/bpf/uprobestats/" ++ path

end UprobeStats
