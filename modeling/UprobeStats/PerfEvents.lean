import UprobeStats.Lib.Effect
import UprobeStats.Lib.Text
import Mathlib.Data.UInt

/-! How a program is attached: `bpfPerfEventOpen` of `ffi/bpf.cpp`, which `Bpf.cpp` has as well, over the descriptors
    of the process. -/

namespace UprobeStats.PerfEvents
open Effect Text

/-- `strtol` to base ten; a `long` has 64 bits. -/
def strtol (text : List UInt8) : Int :=
  let (negative, text) := scanSign (text.dropWhile isSpaceByte)
  let n : Int := decimal (text.takeWhile isDigitByte)
  max (-2 ^ 63) (min (2 ^ 63 - 1) (if negative then -n else n))

/-- `perf_event_attr`, as far as the calls differ in it: the type, `config1` as the path it points to, `config2`; and
    `disabled`, which they leave zero. -/
structure PerfEventAttr where
  type : UInt32
  config1 : String
  config2 : UInt64
  disabled : Bool := false
  deriving DecidableEq

/-- A perf event that a descriptor refers to: what it is opened for, the program that it runs, and whether it does. -/
structure PerfEvent where
  fd : Nat
  attr : PerfEventAttr
  pid : Int32
  program : Option String := none
  enabled : Bool
  deriving DecidableEq

/-- The open descriptors of the process: of programs, by their paths, and of perf events in the order of their calls. -/
structure Files where
  programs : List (Nat × String) := []
  events : List PerfEvent := []

def Files.fds (files : Files) : List Nat := files.programs.map (·.1) ++ files.events.map (·.fd)

inductive Syscall where
  | retrieveProgram (path : String)
  | readFileToString
  | perfEventOpen (attr : PerfEventAttr) (pid : Int32)
  | setBpf (perfEventFd bpfProgramFd : Nat)
  | enable (perfEventFd : Nat)

/-- The kernel decides which call fails and how a descriptor is numbered that is not open. -/
structure Kernel where
  pmuTypeFile : List UInt8
  fails : Files → Syscall → Bool
  newFd : Files → Nat
  newFd_fresh : ∀ files, newFd files ∉ files.fds

/-- A program that fails returns -1. -/
abbrev Prog := EStateM Unit Files

/-- What a call of `bpfPerfEventOpen` is given. -/
structure Attachment where
  filename : String
  offset : Int32
  pid : Int32
  bpfProgramPath : String

section Open
variable (kernel : Kernel)

def syscall (call : Syscall) : Prog Files := do
  let files ← get
  if kernel.fails files call then throw () else pure files

def retrieveProgram (path : String) : Prog Nat := do
  let files ← syscall kernel (.retrieveProgram path)
  set { files with programs := files.programs ++ [(kernel.newFd files, path)] }
  pure (kernel.newFd files)

/-- An event starts enabled, unless its attributes disable it. -/
def perfEventOpen (attr : PerfEventAttr) (pid : Int32) : Prog Nat := do
  let files ← syscall kernel (.perfEventOpen attr pid)
  let event : PerfEvent := { fd := kernel.newFd files, attr, pid, enabled := !attr.disabled }
  set { files with events := files.events ++ [event] }
  pure (kernel.newFd files)

/-- The perf event of a descriptor is changed. -/
def Files.onEvent (files : Files) (fd : Nat) (f : PerfEvent → PerfEvent) : Files :=
  { files with events := files.events.map fun event => if event.fd = fd then f event else event }

def setBpf (perfEventFd bpfProgramFd : Nat) : Prog PUnit := do
  let files ← syscall kernel (.setBpf perfEventFd bpfProgramFd)
  set (files.onEvent perfEventFd fun event => { event with program := files.programs.lookup bpfProgramFd })

def enable (perfEventFd : Nat) : Prog PUnit := do
  let files ← syscall kernel (.enable perfEventFd)
  set (files.onEvent perfEventFd fun event => { event with enabled := true })

/-- The destructor of a `unique_fd`. -/
def closeProgram (bpfProgramFd : Nat) (files : Files) : Files :=
  { files with programs := files.programs.filter fun program => program.1 ≠ bpfProgramFd }

def attrOf (a : Attachment) : PerfEventAttr where
  type := (Int32.ofInt (strtol kernel.pmuTypeFile)).toUInt32
  config1 := a.filename
  config2 := a.offset.toInt64.toUInt64

/-- What `bpfPerfEventOpen` does while it holds the descriptor of the program. -/
def openWith (a : Attachment) (bpfProgramFd : Nat) : Prog PUnit := do
  let _files ← syscall kernel .readFileToString
  let perfEventFd ← perfEventOpen kernel (attrOf kernel a) a.pid
  setBpf kernel perfEventFd bpfProgramFd
  enable kernel perfEventFd

def bpfPerfEventOpen (a : Attachment) : Prog PUnit := do
  let bpfProgramFd ← retrieveProgram kernel a.bpfProgramPath
  onExit (openWith kernel a bpfProgramFd) (closeProgram bpfProgramFd)

end Open

end UprobeStats.PerfEvents
