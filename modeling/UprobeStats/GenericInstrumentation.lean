import UprobeStats.Handler
import UprobeStats.Structs

/-! Calls of any method: the programs of `GenericInstrumentation.c`, the handlers of
    `generic_instrumentation.rs` and what `doPoll` of `UprobeStats.cpp` makes of the same records. -/

namespace UprobeStats
open Rust Effect

/-! ### The programs -/

/-- `pt_regs_x86_supported`, as far as the program reads it. -/
structure PtRegsX86Supported where
  regs : Fin 16 → UInt64
  pc : UInt64

/-- The record that the program fills, and the indices of its stores that are not inside of the array. -/
structure DetailStores where
  result : CallResult
  outside : List Nat := []

/-- `result.regs[index] = value`. What lies behind the array is not a part of the record. -/
def DetailStores.store (stores : DetailStores) (index : Nat) (value : UInt64) : DetailStores :=
  if h : index < 10 then
    { stores with result := { stores.result with regs := Function.update stores.result.regs ⟨index, h⟩ value } }
  else { stores with outside := stores.outside ++ [index] }

/-- The loop of the program, which starts with what its stack holds. -/
def storeRegisters (ctx : PtRegsX86Supported) (stack : CallResult) : DetailStores :=
  (List.finRange 11).foldl (fun stores (i : Fin 11) => stores.store i (ctx.regs (i.castLE (by decide)))) ⟨stack, []⟩

/-- What the program submits, if its reserve gives it a slot, and its stores outside of the array. -/
def callDetail (ctx : PtRegsX86Supported) (stack : CallResult) (slot : Option CallResult) :
    Option CallResult × List Nat :=
  let stores := storeRegisters ctx stack
  (slot.map fun _ => { stores.result with pc := ctx.pc }, stores.outside)

/-- The programs for timestamps, each with its own number. -/
def callTimestamp (event : UInt32) (ktimeNs : UInt64) (slot : Option CallTimestamp) : Option CallTimestamp :=
  slot.map fun _ => ⟨event, ktimeNs⟩

def callTimestamp1 : UInt64 → Option CallTimestamp → Option CallTimestamp := callTimestamp 1
def callTimestamp2 : UInt64 → Option CallTimestamp → Option CallTimestamp := callTimestamp 2
def callTimestamp3 : UInt64 → Option CallTimestamp → Option CallTimestamp := callTimestamp 3
def callTimestamp4 : UInt64 → Option CallTimestamp → Option CallTimestamp := callTimestamp 4
def callTimestamp5 : UInt64 → Option CallTimestamp → Option CallTimestamp := callTimestamp 5

/-! ### The handlers -/

def javaArgumentRegisterOffset : Int32 := 2

/-- `data.regs[index]`, which panics when the index is out of bounds. -/
def CallResult.register (data : CallResult) (index : Nat) : Except Error UInt64 :=
  if h : index < 10 then .ok (data.regs ⟨index, h⟩) else .error (.panic "index out of bounds")

namespace CallTimestampHandler

def onItem (_env : Env) (task : ResolvedTask) (data : CallTimestamp) : Handling Unit CallTimestamp PUnit :=
  match task.task.statsdLoggingConfig with
  | none => pure ⟨⟩
  | some statsdLoggingConfig => do
    let atomId ← lift (okOr statsdLoggingConfig.atomId "atom_id required if statsd_logging_config provided")
    let atomId ← lift (tryU32 atomId.toInt)
    let event ← lift (tryI32 data.event.toNat)
    let timestampNs ← lift (tryI64 data.timestampNs.toNat)
    writeEvent ⟨atomId, [.int32 event, .int64 timestampNs]⟩

theorem sameHanded_onItem (env : Env) (task : ResolvedTask) (data : CallTimestamp) :
    Within SameHanded (onItem env task data) := by
  unfold onItem
  cases task.task.statsdLoggingConfig with
  | none => exact .pure _
  | some statsdLoggingConfig =>
    refine (Within.lift _).bind fun _ => (Within.lift _).bind fun _ => (Within.lift _).bind fun _ => ?_
    exact (Within.lift _).bind fun _ => sameHanded_call _ _

end CallTimestampHandler

def callTimestampHandler : Handler Unit CallTimestamp where
  mapPath := "/sys/fs/bpf/uprobestats/map_GenericInstrumentation_call_timestamp_buf"
  default := ()
  onItem := CallTimestampHandler.onItem
  sameHanded_onItem := CallTimestampHandler.sameHanded_onItem

namespace CallResultHandler

/-- The argument at a position, as the atom takes it. -/
def primitiveArgument (data : CallResult) (primitiveArgumentPosition : Int32) : Except Error Int32 := do
  let registerIndex ← addI32 javaArgumentRegisterOffset primitiveArgumentPosition
  let registerIndex ← tryU64 registerIndex.toInt
  let register ← data.register registerIndex.toNat
  tryI32 register.toNat

def onItem (_env : Env) (task : ResolvedTask) (data : CallResult) : Handling Unit CallResult PUnit :=
  match task.task.statsdLoggingConfig with
  | none => pure ⟨⟩
  | some statsdLoggingConfig => do
    let atomId ← lift (okOr statsdLoggingConfig.atomId "atom_id required if statsd_logging_config provided")
    let atomId ← lift (tryU32 atomId.toInt)
    let primitiveArguments ← lift (statsdLoggingConfig.primitiveArgumentPositions.mapM (primitiveArgument data))
    writeEvent ⟨atomId, primitiveArguments.map .int32⟩

theorem sameHanded_onItem (env : Env) (task : ResolvedTask) (data : CallResult) :
    Within SameHanded (onItem env task data) := by
  unfold onItem
  cases task.task.statsdLoggingConfig with
  | none => exact .pure _
  | some statsdLoggingConfig =>
    refine (Within.lift _).bind fun _ => (Within.lift _).bind fun _ => (Within.lift _).bind fun _ => ?_
    exact sameHanded_call _ _

end CallResultHandler

def callResultHandler : Handler Unit CallResult where
  mapPath := "/sys/fs/bpf/uprobestats/map_GenericInstrumentation_call_detail_buf"
  default := ()
  onItem := CallResultHandler.onItem
  sameHanded_onItem := CallResultHandler.sameHanded_onItem

/-! ### C++ -/

namespace Cxx

def kJavaArgumentRegisterOffset : Int := 2

/-- What `doPoll` writes for a record. A register is cut to an `int`; `beyond` is what lies outside of them. -/
def callResultEvent (beyond : Int → UInt64) (taskConfig : Task) (value : CallResult) : Option StatsEvent :=
  taskConfig.statsdLoggingConfig.map fun statsdLoggingConfig =>
    { atomId := (statsdLoggingConfig.atomId.getD 0).toInt32.toUInt32
      values := statsdLoggingConfig.primitiveArgumentPositions.map fun primitiveArgumentPosition =>
        let index := primitiveArgumentPosition.toInt + kJavaArgumentRegisterOffset
        let register := if h : 0 ≤ index ∧ index < 10 then value.regs ⟨index.toNat, by omega⟩ else beyond index
        .int32 register.toUInt32.toInt32 }

end Cxx

end UprobeStats
