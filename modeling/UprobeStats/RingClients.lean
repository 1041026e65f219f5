import UprobeStats.BpfRingbuf
import UprobeStats.MapLock

/-! A pinned ring buffer that any number of calls open: each `BpfRingbufBase` retrieves its map with a lock of its
    own, keeps the descriptor until it is destroyed, and reads the one consumer position that all of them share. -/

namespace UprobeStats.BpfRingbuf
open MapLock (MapId)

/-- An action of a producer, or of the reader. -/
def Action.produces : Action → Bool
  | .reserve _ _ | .write _ _ | .commit _ | .discard _ => true
  | .create | .consumeAll | .tick | .destroy => false

/-- The calls that retrieve maps, the shared memory of the ring, each call's own reader, and how many processes have
    ended in the middle of a `ConsumeAll`. The reader of `ring` is nobody's. -/
structure Clients (ι : Type) where
  calls : MapLock.State ι
  ring : Ring
  readers : ι → Reader := fun _ => .closed
  kills : Nat := 0

inductive ClientAction (ι : Type) where
  | call (a : MapLock.Action ι)
  | producer (a : Action)
  | reader (i : ι) (a : Action)

section Clients
variable {ι : Type} [DecidableEq ι] (g : Geometry) (ringMap : MapId)

/-- The ring as a call sees it, and the ring that it leaves. -/
def Clients.seen (s : Clients ι) (i : ι) : Ring := { s.ring with reader := s.readers i }

def Clients.left (s : Clients ι) (i : ι) (ring : Ring) : Clients ι :=
  { s with ring := { ring with reader := .closed }, readers := Function.update s.readers i ring.reader }

/-- What a reader does. `Init` goes on only with a descriptor of the ring. -/
def Clients.read (s : Clients ι) (i : ι) (a : Action) : Option (Clients ι) :=
  match a with
  | .create =>
    if s.calls.stage i = .returned .mapRetrieveExclusiveRW ringMap then ((s.seen i).step g .create).map (s.left i)
    else none
  | .consumeAll | .tick | .destroy => ((s.seen i).step g a).map (s.left i)
  | .reserve _ _ | .write _ _ | .commit _ | .discard _ => none

/-- A descriptor is closed after its reader has been destroyed; the end of a process comes at any point. -/
def Clients.step (s : Clients ι) : ClientAction ι → Option (Clients ι)
  | .call a =>
    (s.calls.step true a).bind fun calls =>
      match a with
      | .close i => if s.readers i = .closed then some { s with calls } else none
      | .exit i =>
        some { s with
          calls
          readers := Function.update s.readers i .closed
          kills := if (s.readers i).running then s.kills + 1 else s.kills }
      | .pin _ _ | .bpfFdGet _ _ _ _ | .bpfGetFdMapId _ _ | .setLock _ _ => some { s with calls }
  | .producer a => if a.produces then (s.ring.step g a).map fun ring => { s with ring } else none
  | .reader i a => s.read g ringMap i a

def Clients.init (pins : String → Option MapId) (pos : UInt64) (data : Nat → UInt8) : Clients ι :=
  { calls := { pins }, ring := .empty pos data }

end Clients

end UprobeStats.BpfRingbuf
