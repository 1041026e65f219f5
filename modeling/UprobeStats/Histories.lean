import UprobeStats.Process
import UprobeStats.Lib.SharedRing

/-! Histories of runs. A ring is pinned and keeps its unread records when a run ends; the probes of a run
    stay attached, and go on writing to the ring, until its process exits. -/

namespace UprobeStats
open Rust SharedRing

/-- The timer has time left, as much as a poll can wait. -/
def canWait (duration elapsed : Nat) : Bool :=
  match remainingMillis duration elapsed with
  | none => false
  | some remaining => (tryI32 remaining).toOption.isSome

def roundOf {T : Type} (p : Poll Nat T) : Round T := ⟨p.clock, .ok p.values⟩

/-! ### Waits for a process start -/

structure Wait where
  processName : Option String
  duration : Nat
  deriving DecidableEq

/-- The wait polls on while it has found nothing and its timer allows it. -/
def Wait.goesOn (wait : Wait) (polls : List (Poll Nat ProcessChange)) (elapsed : Nat) : Bool :=
  polls.all (fun p => acceptChanges wait.processName p.values = .ok none) && canWait wait.duration elapsed

/-- The runs that wait for a process start, over the ring `process_change_output_buf`. -/
abbrev StartHistory := State Wait Nat ProcessChange

abbrev StartHistory.step : StartHistory → Action Wait Nat ProcessChange → Option StartHistory :=
  SharedRing.step Wait.goesOn

/-! ### Tasks that poll a ring -/

structure Monitor where
  env : Env
  task : ResolvedTask
  duration : Nat

section Monitor
variable {H T : Type} (h : Handler H T)

def Monitor.loop (m : Monitor) (polls : List (Poll Nat T)) : EStateM.Result Error (Session H T) Bool :=
  (pollLoopGeneric h m.env m.task h.mapPath m.duration (polls.map roundOf)).run { handler := h.default }

/-- The loop polls on while it has not failed and its timer allows it. -/
def Monitor.goesOn (m : Monitor) (polls : List (Poll Nat T)) (elapsed : Nat) : Bool :=
  decide (Effect.value? (m.loop h polls) = some false) && canWait m.duration elapsed

/-- The tasks that poll the ring of a handler, one after another. -/
abbrev TaskHistory (T : Type) := State Monitor Nat T

abbrev TaskHistory.step : TaskHistory T → Action Monitor Nat T → Option (TaskHistory T) :=
  SharedRing.step (Monitor.goesOn h)

end Monitor

end UprobeStats
