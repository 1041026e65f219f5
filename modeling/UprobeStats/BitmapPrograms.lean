import UprobeStats.BitmapAllocation
import UprobeStats.ConfigResolver

/-! The programs that share the ring `output` as a task attaches them, and the handler that is registered for
    that ring. -/

namespace UprobeStats
open Rust Effect

inductive BitmapProgram where
  | bitmapCreation
  | bitmapCreationForSnapshot
  | applyFreeFunction
  | activityPerformStart
  deriving DecidableEq, Repr

namespace BitmapProgram

/-- The name that the program is pinned under. -/
def name : BitmapProgram → String
  | bitmapCreation => "prog_BitmapAllocation_uprobe_bitmap_creation"
  | bitmapCreationForSnapshot => "prog_BitmapAllocation_uprobe_bitmap_creation_for_snapshot"
  | applyFreeFunction => "prog_BitmapAllocation_uprobe_apply_free_function"
  | activityPerformStart => "prog_BitmapAllocation_uprobe_activity_perform_start"

def creates : BitmapProgram → Bool
  | bitmapCreation => true
  | bitmapCreationForSnapshot => true
  | applyFreeFunction => false
  | activityPerformStart => false

/-- What the program submits, if its reserve gives it a slot or none. -/
def run (ctx : PtRegs) (mem : Memory) (pidTgid : UInt64) (slot : Option BitmapAllocation) (active : ActiveBitmaps) :
    BitmapProgram → Option BitmapAllocation × ActiveBitmaps
  | bitmapCreation => (UprobeStats.bitmapCreation ctx mem slot, active)
  | bitmapCreationForSnapshot => UprobeStats.bitmapCreationForSnapshot ctx mem pidTgid slot active
  | applyFreeFunction => UprobeStats.applyFreeFunction ctx mem pidTgid slot active
  | activityPerformStart => (UprobeStats.activityPerformStart ctx mem slot, active)

end BitmapProgram

/-- A program fires, and finds room in the ring or none. -/
structure ProgramFiring where
  program : BitmapProgram
  firing : Firing BitmapAllocation
  reserved : Bool

namespace ProgramFiring

def fire (active : ActiveBitmaps) (x : ProgramFiring) : Option BitmapAllocation × ActiveBitmaps :=
  x.program.run x.firing.ctx x.firing.mem x.firing.pidTgid (if x.reserved then some x.firing.slot else none) active

/-- The records of a sequence of firings, each with the firing that it comes from. -/
def submitted : ActiveBitmaps → List ProgramFiring → List (ProgramFiring × BitmapAllocation)
  | _, [] => []
  | active, x :: xs => (x.fire active).1.toList.map (x, ·) ++ submitted (x.fire active).2 xs

end ProgramFiring

/-- The program is attached for a probe. -/
def Attached (probes : List ResolvedProbe) (program : BitmapProgram) : Prop :=
  ∃ p ∈ probes, p.bpfProgramPath = prefixBpf program.name

/-- The entry of `HANDLER_REGISTRY` for the ring. -/
def registeredBitmapHandler (flags : Flags) : (H : Type) × Handler H BitmapAllocation :=
  if flags.enableBitmapSnapshot then ⟨_, bitmapAllocationHandlerV1⟩ else ⟨_, bitmapAllocationHandlerV0⟩

end UprobeStats
