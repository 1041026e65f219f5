import UprobeStats.BitmapHistory
import UprobeStats.Lib.Steps

/-! Bitmaps from the traced process to the handler: two programs that share the map `active_bitmaps` write to
    the ring `output`, which is bounded, and the handler takes records from it whenever it polls. -/

namespace UprobeStats
open Rust Effect

/-- What a record takes in a ring: it follows a header of eight bytes, and the next one is aligned to eight. -/
def ringRecordSize (size : Nat) : Nat := (size + 8 + 7) / 8 * 8

def sizeofBitmapAllocation : Nat := 160

/-- `bpf_output_reserve` finds room behind the records that are not consumed. -/
def outputHasRoom (pending : List BitmapAllocation) : Bool :=
  (pending.length + 1) * ringRecordSize sizeofBitmapAllocation ≤ 16 * 1024

/-- The pointers that the process uses as bitmaps, the map, the ring and the handler. -/
structure BitmapTracking where
  live : List UInt64 := []
  active : ActiveBitmaps := .empty
  pending : List BitmapAllocation := []
  session : Session BitmapAllocationHandlerV1 BitmapAllocation := { handler := {} }

namespace BitmapTracking

inductive Action where
  | create (nativePtr : UInt64) (f : Firing BitmapAllocation)
  | free (nativePtr : UInt64) (f : Firing BitmapAllocation)
  | consume (count : Nat)

/-- The slot that a program gets for a record. -/
def reserve (s : BitmapTracking) (f : Firing BitmapAllocation) : Option BitmapAllocation :=
  if outputHasRoom s.pending then some f.slot else none

def submit (s : BitmapTracking) (live : List UInt64) (fired : Option BitmapAllocation × ActiveBitmaps) : BitmapTracking :=
  { s with live, active := fired.2, pending := s.pending ++ fired.1.toList }

/-- A pointer is created only while it is not live. Where the handler fails, its run is over. -/
def step (env : Env) (task : ResolvedTask) (s : BitmapTracking) : Action → Option BitmapTracking
  | .create nativePtr f =>
    if nativePtr ∈ s.live then none
    else some (s.submit (nativePtr :: s.live) (bitmapCreationForSnapshot f.ctx f.mem f.pidTgid (s.reserve f) s.active))
  | .free nativePtr f =>
    some (s.submit (s.live.filter (· ≠ nativePtr)) (applyFreeFunction f.ctx f.mem f.pidTgid (s.reserve f) s.active))
  | .consume count =>
    match ((s.pending.take count).forM (handItem bitmapAllocationHandlerV1 env task)).run s.session with
    | .ok _ session => some { s with pending := s.pending.drop count, session }
    | .error _ _ => none

/-- The records that were submitted, newest first. -/
def submitted (s : BitmapTracking) : List BitmapAllocation := (s.session.handed ++ s.pending).reverse

end BitmapTracking
end UprobeStats
