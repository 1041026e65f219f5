import UprobeStats.BinderTransaction
import UprobeStats.BitmapAllocation
import UprobeStats.DisruptiveApp
import UprobeStats.GenericInstrumentation
import UprobeStats.ProcessManagement

/-! The registry of handlers and how a thread finds the one for its map: `poll_registry` of `bpf_map/mod.rs`, with
    the handler of Binder transactions. -/

namespace UprobeStats
open Rust Effect

/-! ### Binder transactions -/

namespace BinderTransactionHandler

def onItem (_env : Env) (_task : ResolvedTask) (item : BinderTransaction) : Handling Unit BinderTransaction PUnit := do
  let _name ← lift (bytesAsStr item.interfaceDescriptor)
  -- test_uprobestats_atom_reported
  writeEvent ⟨915, [.int32 item.callingUid]⟩

theorem sameHanded_onItem (env : Env) (task : ResolvedTask) (item : BinderTransaction) :
    Within SameHanded (onItem env task item) := (Within.lift _).bind fun _ => sameHanded_call _ _

end BinderTransactionHandler

def binderTransactionHandler : Handler Unit BinderTransaction where
  mapPath := "/sys/fs/bpf/uprobestats/map_Binder_output_buf"
  default := ()
  onItem := BinderTransactionHandler.onItem
  sameHanded_onItem := BinderTransactionHandler.sameHanded_onItem

/-! ### The registry -/

/-- A handler with the types of its fields and of its records, and the events with strings that it has written. -/
structure Registered where
  H : Type
  T : Type
  handler : Handler H T
  socket : H → StatsSocket

/-- A registry finds a handler under the path of its map. -/
structure HandlerRegistry where
  map : AList fun _ : String => Registered
  mapPath_eq : ∀ mapPath r, map.lookup mapPath = some r → r.handler.mapPath = mapPath

namespace HandlerRegistry

def new : HandlerRegistry := ⟨∅, fun mapPath r h => by rw [AList.lookup_empty] at h; cases h⟩

def insert (registry : HandlerRegistry) (r : Registered) : HandlerRegistry where
  map := registry.map.insert r.handler.mapPath r
  mapPath_eq mapPath r' h := by
    by_cases heq : mapPath = r.handler.mapPath
    · subst heq
      rw [AList.lookup_insert] at h
      exact congrArg (·.handler.mapPath) (Option.some.inj h).symm
    · rw [AList.lookup_insert_ne heq] at h
      exact registry.mapPath_eq mapPath r' h

end HandlerRegistry

def registerHandler {H T : Type} (h : Handler H T) (handlerRegistry : HandlerRegistry)
    (socket : H → StatsSocket := fun _ => []) : HandlerRegistry :=
  handlerRegistry.insert ⟨H, T, h, socket⟩

/-- `HANDLER_REGISTRY` -/
def handlerRegistry (flags : Flags) : HandlerRegistry :=
  let map := registerHandler bindServiceLockedHandler .new
  let map := if flags.enableBitmapSnapshot then registerHandler bitmapAllocationHandlerV1 map
    else registerHandler bitmapAllocationHandlerV0 map
  let map := if flags.enableBinderTransaction then registerHandler binderTransactionHandler map else map
  let map := registerHandler callTimestampHandler map
  let map := registerHandler callResultHandler map
  let map := registerHandler componentEnabledSettingHandler map
  let map := registerHandler setUidTempAllowlistStateRecordHandler map
  registerHandler updateDeviceIdleTempAllowlistRecordHandler map id

/-- What a thread comes to: how its loop ends, what it has called and the events with strings that it has written. -/
structure Polling where
  ended : Except Error Bool
  calls : List Call
  written : StatsSocket

def Registered.pollingOf (r : Registered) : EStateM.Result Error (Session r.H r.T) Bool → Polling
  | .ok expired s => ⟨.ok expired, s.calls, r.socket s.handler⟩
  | .error e s => ⟨.error e, s.calls, r.socket s.handler⟩

/-- `rounds` are the turns of the loop on the ring of a handler, whose records are read as the handler has them. -/
def pollRegistry (flags : Flags) (env : Env) (mapPath : String) (task : ResolvedTask) (duration : Nat)
    (rounds : ∀ r : Registered, List (Round r.T)) : Polling :=
  match (handlerRegistry flags).map.lookup mapPath with
  | none => ⟨.error (.message s!"unsupported map_path: {mapPath}"), [], []⟩
  | some r => r.pollingOf ((pollLoopGeneric r.handler env task mapPath duration (rounds r)).run
      { handler := r.handler.default })

end UprobeStats
