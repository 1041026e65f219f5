import UprobeStats.Lib.RecordLock
import UprobeStats.Lib.Steps
import Mathlib.Logic.Function.Basic

/-! Opening pinned maps: the retrievals of `BpfSyscallWrappers.h` and their `bpfLock`. Each system call is a step of
    its own, so a run interleaves any number of calls, in any number of processes. -/

namespace UprobeStats.MapLock
open RecordLock

/-- The kernel numbers maps from 1 on. -/
abbrev MapId := { id : Int32 // 0 < id }

def bpfFRdonly : UInt32 := 8
def bpfFWronly : UInt32 := 16

inductive Retrieval where
  | mapRetrieveLocklessRW
  | mapRetrieveExclusiveRW
  | mapRetrieveRW
  | mapRetrieveRO
  | mapRetrieveWO
  deriving DecidableEq

/-- What `bpfFdGet` is given. -/
def Retrieval.flag : Retrieval → UInt32
  | .mapRetrieveLocklessRW | .mapRetrieveExclusiveRW | .mapRetrieveRW => 0
  | .mapRetrieveRO => bpfFRdonly
  | .mapRetrieveWO => bpfFWronly

/-- What `bpfLock` is given, where it is called: it is impossible to grab a shared lock on a write-only fd. -/
def Retrieval.type : Retrieval → Option Kind
  | .mapRetrieveLocklessRW | .mapRetrieveRO => none
  | .mapRetrieveExclusiveRW | .mapRetrieveWO => some .exclusive
  | .mapRetrieveRW => some .shared

/-- The access that the kernel asks of a descriptor for a lock. -/
def Retrieval.permits (r : Retrieval) : Kind → Bool
  | .shared => r.flag &&& bpfFWronly = 0
  | .exclusive => r.flag &&& bpfFRdonly = 0

/-! ### Calls -/

/-- Where a call stands between two system calls: nothing is open, a descriptor is open and `bpfLock` about to ask
    for the id of its map, to lock, or to close it, the call has returned the descriptor, or its process aborts. -/
inductive Stage where
  | idle
  | opened (r : Retrieval) (map : MapId) (type : Kind)
  | identified (r : Retrieval) (map : MapId) (type : Kind)
  | refused (r : Retrieval) (map : MapId)
  | returned (r : Retrieval) (map : MapId)
  | aborted
  deriving DecidableEq

/-- A call and the open file of its descriptor go by one name. The descriptors of all maps are of one file, in which
    a map's lock is the byte at its id. -/
structure State (ι : Type) where
  pins : String → Option MapId
  stage : ι → Stage := fun _ => .idle
  locks : Table ι Int := .empty

/-- Someone pins or unpins a map, a call makes its next system call, which may fail for any reason of the kernel's,
    a descriptor is closed, or the process of a call ends, at whatever point it is. -/
inductive Action (ι : Type) where
  | pin (path : String) (map : Option MapId)
  | bpfFdGet (i : ι) (r : Retrieval) (path : String) (fails : Bool)
  | bpfGetFdMapId (i : ι) (fails : Bool)
  | setLock (i : ι) (fails : Bool)
  | close (i : ι)
  | exit (i : ι)

section Step
variable {ι : Type} [DecidableEq ι]

def State.goto (s : State ι) (i : ι) (stage : Stage) : State ι := { s with stage := Function.update s.stage i stage }

/-- The kernel drops the locks of a file that is closed. -/
def State.ended (s : State ι) (i : ι) : State ι := { s.goto i .idle with locks := s.locks.release i }

@[simp] theorem State.goto_stage {s : State ι} {i : ι} {stage : Stage} :
    (s.goto i stage).stage = Function.update s.stage i stage := rfl

@[simp] theorem State.ended_stage {s : State ι} {i : ι} : (s.ended i).stage = Function.update s.stage i .idle := rfl

@[simp] theorem State.ended_locks {s : State ι} {i : ι} : (s.ended i).locks = s.locks.release i := rfl

def lockOf (i : ι) (map : MapId) (kind : Kind) : Lock ι Int := ⟨i, map.val.toInt, kind⟩

/-- A step of the system, on a kernel that tells the ids of maps or on one before 4.14. -/
def State.step (tellsIds : Bool) (s : State ι) : Action ι → Option (State ι)
  | .pin path map => some { s with pins := Function.update s.pins path map }
  | .bpfFdGet i r path fails =>
    if s.stage i = .idle then
      match if fails then none else s.pins path with
      | none => some s -- pass any errors straight through
      | some map =>
        match r.type with
        | none => some (s.goto i (.returned r map))
        | some type => some (s.goto i (.opened r map type))
    else none
  | .bpfGetFdMapId i fails =>
    match s.stage i with
    | .opened r map type =>
      -- 4.14+ required to fetch map id
      if !tellsIds then some (s.goto i (.returned r map))
      else if fails then some (s.goto i .aborted)
      else some (s.goto i (.identified r map type))
    | _ => none
  | .setLock i fails =>
    match s.stage i with
    | .identified r map type =>
      match if fails || !r.permits type then none else s.locks.set (lockOf i map type) with
      | none => some (s.goto i (.refused r map))
      | some locks => some { s.goto i (.returned r map) with locks }
    | _ => none
  | .close i =>
    match s.stage i with
    | .refused _ _ | .returned _ _ => some (s.ended i)
    | _ => none
  | .exit i => some (s.ended i)

def Reachable (tellsIds : Bool) (pins : String → Option MapId) : State ι → Prop :=
  Steps.Reachable (State.step tellsIds) { pins }

end Step

end UprobeStats.MapLock
