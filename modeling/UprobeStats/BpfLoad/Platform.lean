import UprobeStats.Lib.Bytes
import UprobeStats.Lib.Effect
import UprobeStats.Lib.Text

/-! What the BPF loader runs on: the kernel that its calls go to, the memory around its buffers, and the state
    of a run of it. -/

namespace UprobeStats.BpfLoad
open Effect

/-! ### ELF structures -/

structure Elf64Ehdr where
  eShoff : Nat
  eShentsize : Nat
  eShnum : Nat
  eShstrndx : Nat

structure Elf64Shdr where
  shName : Nat
  shType : Nat
  shOffset : Nat
  shSize : Nat
  deriving DecidableEq

structure Elf64Sym where
  stName : Nat
  stInfo : Nat
  stShndx : Nat
  stValue : Nat
  deriving DecidableEq

structure Elf64Rel where
  rOffset : Nat
  rInfo : Nat
  deriving DecidableEq

/-- `struct bpf_map_def`, as far as the loader reads it. -/
structure BpfMapDef where
  type : UInt32
  keySize : UInt32
  valueSize : UInt32
  maxEntries : UInt32
  mapFlags : UInt32
  zero : UInt32
  gid : UInt32
  mode : UInt32
  minKver : UInt32
  maxKver : UInt32
  shared : Bool
  uid : UInt32
  deriving DecidableEq

/-- `struct bpf_prog_def`, as far as the loader reads it. -/
structure BpfProgDef where
  uid : UInt32
  gid : UInt32
  minKver : UInt32
  maxKver : UInt32
  optional : Bool
  deriving DecidableEq

/-- `enum bpf_prog_type`; the type of FUSE programs is a number that the kernel tells. -/
abbrev BpfProgType := Int32

def bpfProgTypeUnspec : BpfProgType := 0
def bpfProgTypeSocketFilter : BpfProgType := 1
def bpfProgTypeKprobe : BpfProgType := 2
def bpfProgTypeTracepoint : BpfProgType := 5
def bpfProgTypePerfEvent : BpfProgType := 7

def bpfMapTypeHash : UInt32 := 1
def bpfMapTypeDevmap : UInt32 := 14
def bpfMapTypeDevmapHash : UInt32 := 25
def bpfMapTypeRingbuf : UInt32 := 27

def bpfFRdonlyProg : UInt32 := 0x80

/-! ### System calls -/

abbrev Path := List UInt8

structure MapAttr where
  mapType : UInt32
  keySize : UInt32
  valueSize : UInt32
  maxEntries : UInt32
  mapFlags : UInt32
  deriving DecidableEq

structure ProgAttr where
  progType : BpfProgType
  kernVersion : UInt32
  license : List UInt8
  insns : List UInt8
  insnCnt : Nat
  progName : List UInt8
  deriving DecidableEq

inductive MapField where
  | mapType
  | keySize
  | valueSize
  | maxEntries
  | mapFlags
  deriving DecidableEq

inductive Syscall where
  | access (path : Path)
  | objGet (path : Path)
  | mapCreate (attr : MapAttr) (mapName : List UInt8)
  | mapInfo (fd : Int) (field : MapField)
  | idInfo (fd : Int)
  | progLoad (attr : ProgAttr)
  | objPin (fd : Int) (path : Path)
  | chmod (path : Path) (mode : UInt32)
  | chown (path : Path) (uid gid : UInt32)
  deriving DecidableEq

abbrev Errno := { e : Int // 0 < e }

def enoent : Errno := ⟨2, by decide⟩
def ebadf : Errno := ⟨9, by decide⟩
def enomem : Errno := ⟨12, by decide⟩
def eexist : Errno := ⟨17, by decide⟩
def einval : Errno := ⟨22, by decide⟩
def enotuniq : Errno := ⟨76, by decide⟩

inductive Object where
  | map (attr : MapAttr)
  | prog (attr : ProgAttr)
  deriving DecidableEq

/-- A pinned object. -/
structure Node where
  object : Object
  mode : UInt32
  uid : UInt32
  gid : UInt32
  deriving DecidableEq

/-! ### The platform -/

/-- What reads outside of a buffer find, one after the other. -/
structure Stray where
  shdr : Nat → Elf64Shdr
  sym : Nat → Elf64Sym
  progDef : Nat → BpfProgDef
  mapDef : Nat → BpfMapDef
  fd : Nat → Int
  text : Nat → List UInt8

/-- The kernel decides on each call which error it fails with, if any, and how a new descriptor is numbered. Memory for
    what is in a file is there; for more than that, `allocates` tells. `sort` is `std::sort` by `symCompare`, which may
    order symbols of one value in any way. -/
structure Platform where
  kernelVersion : UInt32
  pageSize : UInt32
  fuseProgType : Int32
  fails : List Syscall → Option Errno
  newFd : List Syscall → Nat
  allocates : Nat → Bool
  stray : Stray
  sort : List Elf64Sym → List Elf64Sym
  perm_sort : ∀ syms, (sort syms).Perm syms
  sorted_sort : ∀ syms, (sort syms).Pairwise fun a b => a.stValue ≤ b.stValue

/-! ### Runs -/

abbrev Ret := { code : Int // code ≠ 0 }

def minusOne : Ret := ⟨-1, by decide⟩
def minusTwo : Ret := ⟨-2, by decide⟩

/-- `-err` -/
def minus (err : Errno) : Ret := ⟨-err.val, by have := err.property; omega⟩

/-- How the loader stops early: with a return code that is not zero, or by an abort. -/
inductive Stop where
  | ret (code : Ret)
  | abort

/-- The state of a run: `failbit` of the stream, the number of reads and writes outside of a buffer, the calls so far,
    what is pinned, the objects of the open descriptors, and `isCritical`. -/
structure World where
  failbit : Bool := false
  strays : Nat := 0
  calls : List Syscall := []
  pins : Path → Option Node := fun _ => none
  fds : List (Int × Object) := []
  isCritical : Bool := false

abbrev Prog := EStateM Stop World

def fail {α : Type} (code : Ret) : Prog α := throw (.ret code)

/-- A call whose return code the caller looks at; an abort ends the caller too. -/
def tried {α : Type} (x : Prog α) : Prog (Except Ret α) := do
  match ← attempt x with
  | .ok a => pure (.ok a)
  | .error (.ret code) => pure (.error code)
  | .error .abort => throw .abort

def strayRead {α : Type} (found : Nat → α) : Prog α := do
  let w ← get
  set { w with strays := w.strays + 1 }
  pure (found w.strays)

/-- A write that may go outside of its buffer; what it does to other memory is left out. -/
def strayWrite (outside : Bool) : Prog PUnit :=
  modify fun w => { w with strays := if outside then w.strays + 1 else w.strays }

/-- An element of a vector, or what lies beyond it. -/
def elementAt {α : Type} (xs : List α) (i : Nat) (beyond : Nat → α) : Prog α :=
  match xs[i]? with
  | some x => pure x
  | none => strayRead beyond

section Calls
variable (platform : Platform)

/-- A call that does not fail for another reason has its effect, or fails in it. -/
def syscall {α : Type} (call : Syscall) (effect : World → Except Errno (α × World)) : Prog (Except Errno α) := do
  let w ← get
  let w := { w with calls := w.calls ++ [call] }
  set w
  match platform.fails w.calls with
  | some err => pure (.error err)
  | none =>
    match effect w with
    | .error err => pure (.error err)
    | .ok (a, w) => do
      set w
      pure (.ok a)

def access (path : Path) : Prog (Except Errno Unit) :=
  syscall platform (.access path) fun w => if (w.pins path).isSome then .ok ((), w) else .error enoent

def openFd (object : Object) (w : World) : Int × World :=
  let fd : Int := platform.newFd w.calls
  (fd, { w with fds := (fd, object) :: w.fds })

/-- `mapRetrieveRO` and `retrieveProgram`. -/
def bpfFdGet (path : Path) : Prog (Except Errno Int) :=
  syscall platform (.objGet path) fun w =>
    match w.pins path with
    | some node => .ok (openFd platform node.object w)
    | none => .error enoent

/-- The kernel adds a flag to the ones of a device map. -/
def MapAttr.created (attr : MapAttr) : MapAttr :=
  if attr.mapType = bpfMapTypeDevmap ∨ attr.mapType = bpfMapTypeDevmapHash then
    { attr with mapFlags := attr.mapFlags ||| bpfFRdonlyProg }
  else attr

def bpfMapCreate (attr : MapAttr) (mapName : List UInt8) : Prog (Except Errno Int) :=
  syscall platform (.mapCreate attr mapName) fun w => .ok (openFd platform (.map attr.created) w)

def bpfProgLoad (attr : ProgAttr) : Prog (Except Errno Int) :=
  syscall platform (.progLoad attr) fun w => .ok (openFd platform (.prog attr) w)

def MapAttr.get (attr : MapAttr) : MapField → UInt32
  | .mapType => attr.mapType
  | .keySize => attr.keySize
  | .valueSize => attr.valueSize
  | .maxEntries => attr.maxEntries
  | .mapFlags => attr.mapFlags

/-- `bpfGetFdMapType` and its like: a field of the map, or -1. -/
def bpfGetFdMap (fd : Int) (field : MapField) : Prog Int32 := do
  let info ← syscall platform (.mapInfo fd field) fun w =>
    match w.fds.lookup fd with
    | some (.map attr) => .ok ((attr.get field).toInt32, w)
    | _ => .error ebadf
  pure (info.toOption.getD (-1))

/-- `bpfGetFdMapId` and `bpfGetFdProgId`, whose result is only logged. -/
def bpfGetFdId (fd : Int) : Prog PUnit := do
  let _id ← syscall platform (.idInfo fd) fun w => .ok ((), w)
  pure ⟨⟩

def bpfFdPin (fd : Int) (path : Path) : Prog (Except Errno Unit) :=
  syscall platform (.objPin fd path) fun w =>
    match w.fds.lookup fd, w.pins path with
    | none, _ => .error ebadf
    | some _, some _ => .error eexist
    | some object, none => .ok ((), { w with pins := Function.update w.pins path (some ⟨object, 0o600, 0, 0⟩) })

def chmod (path : Path) (mode : UInt32) : Prog (Except Errno Unit) :=
  syscall platform (.chmod path mode) fun w =>
    match w.pins path with
    | none => .error enoent
    | some node =>
      .ok ((), { w with pins := Function.update w.pins path (some { node with mode := mode &&& 0o7777 }) })

/-- The bits of a mode that a change of the owners leaves: the set-user-ID bit goes, and so does the set-group-ID bit of
    a file that its group may execute. -/
def chownMode (mode : UInt32) : UInt32 :=
  mode &&& ~~~(if mode &&& 0o10 = 0 then 0o4000 else 0o6000)

/-- An owner or a group of -1 is left as it is. -/
def chown (path : Path) (uid gid : UInt32) : Prog (Except Errno Unit) :=
  syscall platform (.chown path uid gid) fun w =>
    match w.pins path with
    | none => .error enoent
    | some node =>
      .ok ((), { w with pins := Function.update w.pins path (some { node with
        mode := chownMode node.mode
        uid := if uid = 0xFFFFFFFF then node.uid else uid
        gid := if gid = 0xFFFFFFFF then node.gid else gid }) })

end Calls

end UprobeStats.BpfLoad
