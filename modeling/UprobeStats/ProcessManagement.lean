import UprobeStats.BpfFns
import UprobeStats.Device
import UprobeStats.Cxx.Poll

/-! The programs of `ProcessManagement.c`, which record the starts of processes and the changes of temporary
    allowlists; the handlers of `process_management.rs` and what `doPoll` of `UprobeStats.cpp` makes of the changes. -/

namespace UprobeStats
open Rust Effect Text

structure SetUidTempAllowlistStateRecord where
  uid : UInt64
  onAllowlist : Bool
  deriving DecidableEq

structure UpdateDeviceIdleTempAllowlistRecord where
  changingUid : Int32
  adding : Bool
  durationMs : Int64
  type : Int32
  reasonCode : Int32
  reason : Chars 256
  callingUid : Int32
  deriving DecidableEq

/-! ### The programs that record changes of allowlists -/

def setUidTempAllowlistState (ctx : PtRegs) (_mem : Memory) (slot : Option SetUidTempAllowlistStateRecord) :
    Option SetUidTempAllowlistStateRecord := do
  let _output ← slot
  some { uid := ctx.regs 2, onAllowlist := ctx.regs 3 != 0 }

def updateDeviceIdleTempAllowlist (ctx : PtRegs) (mem : Memory) (slot : Option UpdateDeviceIdleTempAllowlistRecord) :
    Option UpdateDeviceIdleTempAllowlistRecord := do
  let output ← slot
  some {
    changingUid := (ctx.regs 3).toUInt32.toInt32
    adding := ctx.regs 4 != 0
    durationMs := (ctx.regs 5).toInt64
    type := (ctx.regs 6).toUInt32.toInt32
    reasonCode := (ctx.regs 7).toUInt32.toInt32
    reason := recordStringArgFromSp mem ctx 256 40 output.reason
    callingUid := (readUser32 mem (ctx.sp + 44)).toInt32 }

/-! ### The programs that record starts -/

def setPid (ctx : PtRegs) (mem : Memory) (slot : Option ProcessChange) : Option ProcessChange := do
  let output ← slot
  let processName := readRef mem (ctx.regs 1 + 0xa0)
  some {
    pid := (ctx.regs 2).toUInt32.toInt32
    uid := (readUser32 mem (ctx.regs 1 + 0xf4)).toInt32
    processName := recordString mem processName 256 output.processName }

def makeActive (ctx : PtRegs) (mem : Memory) (slot : Option ProcessChange) : Option ProcessChange := do
  let output ← slot
  let processName := readRef mem (ctx.regs 1 + 0xa0)
  some {
    pid := (readUser32 mem (ctx.regs 1 + 0xe4)).toInt32
    uid := (readUser32 mem (ctx.regs 1 + 0xf0)).toInt32
    processName := recordString mem processName 256 output.processName }

def onProcessActive (ctx : PtRegs) (mem : Memory) (slot : Option ProcessChange) : Option ProcessChange := do
  let output ← slot
  let processRecordPtr := readRef mem (ctx.regs 1 + 0x8)
  let processName := readRef mem (processRecordPtr + 52)
  some {
    pid := (readUser32 mem (processRecordPtr + 524)).toInt32
    uid := (readUser32 mem (processRecordPtr + 532)).toInt32
    processName := recordString mem processName 256 output.processName }

/-! ### Events with strings -/

inductive AtomValue where
  | number (value : StatsValue)
  | string (bytes : List UInt8)
  deriving DecidableEq

/-- An `AStatsEvent` that may have strings, each the bytes before the zero that ends it. -/
structure AStatsEvent where
  atomId : UInt32
  values : List AtomValue
  deriving DecidableEq

/-- The events that a handler has written. They stand where the handler has no fields of its own. -/
abbrev StatsSocket := List AStatsEvent

def writeAStatsEvent {T : Type} (event : AStatsEvent) : Handling StatsSocket T PUnit := modifyHandler (· ++ [event])

/-! ### The handlers -/

namespace SetUidTempAllowlistStateRecordHandler

def onItem (_env : Env) (task : ResolvedTask) (data : SetUidTempAllowlistStateRecord) :
    Handling Unit SetUidTempAllowlistStateRecord PUnit :=
  match task.task.statsdLoggingConfig with
  | none => pure ⟨⟩
  | some statsdLoggingConfig => do
    let atomId ← lift (okOr statsdLoggingConfig.atomId "atom_id required if statsd_logging_config provided")
    let atomId ← lift (tryU32 atomId.toInt)
    let uid ← lift (tryI32 data.uid.toNat)
    writeEvent ⟨atomId, [.int32 uid, .bool data.onAllowlist]⟩

theorem sameHanded_onItem (env : Env) (task : ResolvedTask) (data : SetUidTempAllowlistStateRecord) :
    Within SameHanded (onItem env task data) := by
  unfold onItem
  cases task.task.statsdLoggingConfig with
  | none => exact .pure _
  | some statsdLoggingConfig =>
    refine (Within.lift _).bind fun _ => (Within.lift _).bind fun _ => (Within.lift _).bind fun _ => ?_
    exact sameHanded_call _ _

end SetUidTempAllowlistStateRecordHandler

def setUidTempAllowlistStateRecordHandler : Handler Unit SetUidTempAllowlistStateRecord where
  mapPath := "/sys/fs/bpf/uprobestats/map_ProcessManagement_output_buf"
  default := ()
  onItem := SetUidTempAllowlistStateRecordHandler.onItem
  sameHanded_onItem := SetUidTempAllowlistStateRecordHandler.sameHanded_onItem

namespace UpdateDeviceIdleTempAllowlistRecordHandler

def onItem (_env : Env) (task : ResolvedTask) (data : UpdateDeviceIdleTempAllowlistRecord) :
    Handling StatsSocket UpdateDeviceIdleTempAllowlistRecord PUnit :=
  match task.task.statsdLoggingConfig with
  | none => pure ⟨⟩
  | some statsdLoggingConfig => do
    let atomId ← lift (okOr statsdLoggingConfig.atomId "atom_id required if statsd_logging_config provided")
    let atomId ← lift (tryU32 atomId.toInt)
    let reason ← lift (bytesAsStr data.reason)
    lift (cString reason)
    writeAStatsEvent ⟨atomId, [.number (.int32 data.changingUid), .number (.bool data.adding),
      .number (.int64 data.durationMs), .number (.int32 data.type), .number (.int32 data.reasonCode),
      .string (utf8 reason), .number (.int32 data.callingUid)]⟩

theorem sameHanded_onItem (env : Env) (task : ResolvedTask) (data : UpdateDeviceIdleTempAllowlistRecord) :
    Within SameHanded (onItem env task data) := by
  unfold onItem
  cases task.task.statsdLoggingConfig with
  | none => exact .pure _
  | some statsdLoggingConfig =>
    refine (Within.lift _).bind fun _ => (Within.lift _).bind fun _ => (Within.lift _).bind fun _ => ?_
    exact (Within.lift _).bind fun _ => sameHanded_modifyHandler _

end UpdateDeviceIdleTempAllowlistRecordHandler

def updateDeviceIdleTempAllowlistRecordHandler : Handler StatsSocket UpdateDeviceIdleTempAllowlistRecord where
  mapPath := "/sys/fs/bpf/uprobestats/map_ProcessManagement_update_device_idle_temp_allowlist_records"
  default := []
  onItem := UpdateDeviceIdleTempAllowlistRecordHandler.onItem
  sameHanded_onItem := UpdateDeviceIdleTempAllowlistRecordHandler.sameHanded_onItem

/-! ### C++ -/

namespace Cxx

/-- What `doPoll` writes for a change of a uid's state, with the uid cut to an `int`. -/
def setUidTempAllowlistStateEvent (taskConfig : Task) (value : SetUidTempAllowlistStateRecord) : Option StatsEvent :=
  taskConfig.statsdLoggingConfig.map fun statsdLoggingConfig =>
    { atomId := (statsdLoggingConfig.atomId.getD 0).toInt32.toUInt32
      values := [.int32 value.uid.toUInt32.toInt32, .bool value.onAllowlist] }

/-- What `doPoll` writes for an update; `beyond` is what lies behind the array of the reason. -/
def updateDeviceIdleTempAllowlistEvent (beyond : List UInt8) (taskConfig : Task)
    (value : UpdateDeviceIdleTempAllowlistRecord) : Option AStatsEvent :=
  taskConfig.statsdLoggingConfig.map fun statsdLoggingConfig =>
    { atomId := (statsdLoggingConfig.atomId.getD 0).toInt32.toUInt32
      values := [.number (.int32 value.changingUid), .number (.bool value.adding), .number (.int64 value.durationMs),
        .number (.int32 value.type), .number (.int32 value.reasonCode),
        .string ((value.reason.bytes ++ beyond).takeWhile (· ≠ 0)), .number (.int32 value.callingUid)] }

/-- The branches of the loop, by the records that they poll. -/
inductive Branch where
  | callResult
  | callTimestamp
  | updateDeviceIdleTempAllowlist
  | setUidTempAllowlistState
  deriving DecidableEq, Repr

def branch? (mapPath : String) : Option Branch :=
  if contains mapPath kGenericBpfMapDetail then some .callResult
  else if contains mapPath kGenericBpfMapTimestamp then some .callTimestamp
  else if contains mapPath kUpdateDeviceIdleTempAllowlistMap then some .updateDeviceIdleTempAllowlist
  else if contains mapPath kProcessManagementMap then some .setUidTempAllowlistState
  else none

/-- The records that a thread gets from its polls. -/
def polledValues {T : Type} (mapPath : String) (duration : Int) : Nat → List (PollTurn T) → List T
  | _, [] => []
  | now, turn :: turns =>
    if now < duration ∧ (branch? mapPath).isSome then turn.values ++ polledValues mapPath duration turn.now turns
    else []

/-- What a thread writes for the records that it gets. -/
def doPollEvents {T E : Type} (event : Task → T → Option E) (mapPath : String) (taskConfig : Task)
    (turns : List (PollTurn T)) : List E :=
  (polledValues mapPath (durationNanos taskConfig) 0 turns).filterMap (event taskConfig)

end Cxx

end UprobeStats
