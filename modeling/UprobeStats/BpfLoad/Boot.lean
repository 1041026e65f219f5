import UprobeStats.BpfLoad.Loader

/-! A run of the BPF loader: every object of its locations, and the loader of the platform after it. -/

namespace UprobeStats.BpfLoad
open Effect

/-! ### The objects of a directory -/

/-- An entry that `readdir` gives, and the file that its name opens. -/
structure DirEntry where
  dName : List UInt8
  file : Option (List UInt8)

/-- What is logged of an object: its path, the code that `loadProg` returned if it is not zero, and whether the object
    is critical. -/
structure Report where
  progPath : List UInt8
  ret : Option Ret
  critical : Bool

def Report.failed (report : Report) : Bool := report.ret.isSome && report.critical

/-- The code that a call returns, if it is not zero. -/
def codeOf {α : Type} : Except Ret α → Option Ret
  | .ok _ => none
  | .error ret => some ret

section Objects
variable (platform : Platform) (location : Location)

/-- `loadProg` with a stream of its own; the descriptors that it has opened are closed behind it. -/
def loadObject (ent : DirEntry) : Prog Report := do
  modify fun w => { w with failbit := false, fds := [] }
  let progPath := location.dir ++ ent.dName
  let result ← tried (loadProg platform progPath ent.file location)
  modify fun w => { w with fds := [] }
  let w ← get
  pure { progPath, ret := codeOf result, critical := w.isCritical }

def DirEntry.isObject (ent : DirEntry) : Bool := (Text.utf8 ".o").isSuffixOf ent.dName

/-- The loop over the entries of the directory, with the code that it returns. -/
def loadEntries (retVal : Option Ret) : List DirEntry → Prog (Option Ret × List Report)
  | [] => pure (retVal, [])
  | ent :: ents =>
    if !ent.isObject then loadEntries retVal ents
    else do
      let report ← loadObject platform location ent
      let (retVal, reports) ← loadEntries (if report.failed then report.ret else retVal) ents
      pure (retVal, report :: reports)

/-- `none` stands for a directory that cannot be opened, and for the code 0. -/
def loadAllElfObjects (dir : Option (List DirEntry)) : Prog (Option Ret × List Report) :=
  match dir with
  | none => pure (none, [])
  | some ents => loadEntries platform location none ents

end Objects

/-! ### The process -/

/-- The process: the state of the loads, its umask, the directories in the BPF file system with their modes, and
    what it has called `execve` with. -/
structure Boot where
  world : World := {}
  umask : UInt32
  dirs : Path → Option UInt32 := fun _ => none
  execve : Option Path := none

/-- What the loader finds: the kernel, what `mkdir` fails with if it fails for a reason of its own, and the
    directories of objects. -/
structure Machine where
  platform : Platform
  mkdirFails : Path → Option Errno
  opendir : List UInt8 → Option (List DirEntry)

abbrev BootProg := EStateM Stop Boot

section Process
variable (machine : Machine)

def onWorld {α : Type} (x : Prog α) : BootProg α := fun b =>
  match x.run b.world with
  | .ok a w => .ok a { b with world := w }
  | .error stop w => .error stop { b with world := w }

def setUmask (mask : UInt32) : BootProg UInt32 := do
  let b ← get
  set { b with umask := mask }
  pure b.umask

def mkdir (path : Path) (mode : UInt32) : BootProg (Except Errno Unit) := do
  let b ← get
  match machine.mkdirFails path, b.dirs path with
  | some err, _ => pure (.error err)
  | none, some _ => pure (.error eexist)
  | none, none => do
    set { b with dirs := Function.update b.dirs path (some (mode &&& ~~~b.umask)) }
    pure (.ok ())

/-- The umask stays as it is set where `mkdir` fails. -/
def createSysFsBpfSubDir (locationPrefix : List UInt8) : BootProg (Option Ret) :=
  if locationPrefix = [] then pure none
  else do
    let prevUmask ← setUmask 0
    match ← mkdir machine (bpfFsPath ++ locationPrefix) 0o1777 with
    | .error err =>
      if err ≠ eexist then pure (some (minus err))
      else do
        let _ ← setUmask prevUmask
        pure none
    | .ok _ => do
      let _ ← setUmask prevUmask
      pure none

def locations : List Location := [uprobestatsLocation]

def createBpfFsSubDirectories : List Location → BootProg Bool
  | [] => pure false
  | location :: rest => do
    match ← createSysFsBpfSubDir machine location.locationPrefix with
    | some _ => pure true
    | none => createBpfFsSubDirectories rest

def legacyBpfLoader : List Location → BootProg (List Report)
  | [] => pure []
  | location :: rest => do
    let (_, reports) ← onWorld (loadAllElfObjects machine.platform location (machine.opendir location.dir))
    let others ← legacyBpfLoader rest
    pure (reports ++ others)

def load : BootProg (List Report) := do
  if ← createBpfFsSubDirectories machine locations then pure []
  else legacyBpfLoader machine locations

def platformBpfLoader : Path := Text.utf8 "/system/bin/bpfloader"

/-- What `execve` finds is what this leaves: it returns only when it fails. -/
def main : BootProg (List Report) := do
  let reports ← load machine
  modify fun b => { b with execve := some platformBpfLoader }
  pure reports

end Process

end UprobeStats.BpfLoad
