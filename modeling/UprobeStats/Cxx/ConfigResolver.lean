import UprobeStats.Art
import UprobeStats.Process

/-! The resolver of the C++ program: `ConfigResolver.cpp`, with what it calls in `Art.cpp` and `Process.cpp`.
    Where a function returns no value, `main` logs an error and returns 1. -/

namespace UprobeStats.Cxx
open Rust Effect Text

/-! ### Offsets from oatdump -/

/-- `fgets`, with room for so many bytes before the zero: the bytes up to the end of the line, and the rest. -/
def fgets : Nat → List UInt8 → List UInt8 × List UInt8
  | 0, bs => ([], bs)
  | _ + 1, [] => ([], [])
  | room + 1, b :: bs => if b = 10 then ([b], bs) else ((fgets room bs).map (b :: ·) id)

/-- The text that the loop over the pipe collects; a buffer is appended as a C string. -/
def readPipe : Nat → List UInt8 → List UInt8
  | 0, _ => []
  | fuel + 1, bs =>
    if bs = [] then []
    else (fgets 255 bs).1.takeWhile (· ≠ 0) ++ readPipe fuel (fgets 255 bs).2

/-- `std::getline` until it fails: the text after the last newline is a line when there is one. -/
def getlines (bs : List UInt8) : List (List UInt8) :=
  let parts := bs.splitOn 10
  if parts.getLast? = some [] then parts.dropLast else parts

/-- `stream >> std::hex >> offset`: no digits leave a zero, and a number out of range its nearest bound. A blank
    text ends before anything is stored, and `offset` stays what it was. -/
def readHex (unset : Int32) (s : String) : Int32 :=
  let cs := s.toList.dropWhile fun c => c = ' ' || ('\t' ≤ c && c ≤ '\r')
  if cs = [] then unset else
  let (sign, cs) := match cs with
    | '-' :: cs => ((-1 : Int), cs)
    | '+' :: cs => (1, cs)
    | cs => (1, cs)
  let cs := match cs with
    | '0' :: 'x' :: cs => cs
    | '0' :: 'X' :: cs => cs
    | cs => cs
  let n := (hexDigits? (cs.takeWhile fun c => (hexDigit? c).isSome)).getD 0
  Int32.ofInt (max (-2 ^ 31) (min (2 ^ 31 - 1) (sign * n)))

section Device
variable (dev : Device) (reader : List UInt8 → Option JsonLine)

def findOffset (unset : Int32) (methodSignature : String) : List (List UInt8) → Int32
  | [] => 0
  | line :: lines =>
    match reader line with
    | some entry =>
      if entry.method.getD "" = methodSignature then readHex unset (entry.offset.getD "")
      else findOffset unset methodSignature lines
    | none => findOffset unset methodSignature lines

/-- The exit status of `oatdump` is not looked at. -/
def getMethodOffsetFromOatdump (oatFile methodSignature : String) : Prog Int32 :=
  ask (.oatdump oatFile) fun requests =>
    let stdout := ((dev.oatdump requests oatFile).toOption.map Output.stdout).getD []
    .ok (findOffset reader (dev.unsetOffset oatFile) methodSignature (getlines (readPipe stdout.length stdout)))

/-! ### The task -/

/-- An entry that cannot be read ends the search. -/
def findPid (processName : String) : List (Option ProcEntry) → Int32
  | [] => -1
  | none :: _ => -1
  | some entry :: entries =>
    let cmdline := entry.cmdline.getD []
    if entry.cmdline.isSome && (cmdline = utf8 processName || (utf8 processName ++ [0]).isPrefixOf cmdline) then
      entry.number?.getD (-1)
    else findPid processName entries

def getPid (processName : String) : Prog Int32 := do
  let w ← get
  pure (findPid processName ((dev.proc w.requests).getD []))

structure ResolvedTask where
  taskConfig : Task
  pid : Int32
  deriving DecidableEq

/-- A duration that is zero or negative is logged only. -/
def resolveSingleTask (config : UprobestatsConfig) : Prog ResolvedTask := do
  let taskConfig ← lift (okOr config.tasks.head? "config has no tasks")
  let _durationSeconds ← lift (okOr taskConfig.durationSeconds "config task has no duration")
  let processName ← lift (okOr taskConfig.targetProcessName "task.target_process_name is required.")
  lift (ensure (processName = "system_server") "system_server is the only target process currently supported")
  let pid ← getPid dev processName
  lift (ensure (0 ≤ pid) s!"Unable to find pid of {processName}")
  pure { taskConfig, pid }

/-! ### The probes -/

structure ResolvedProbe where
  probeConfig : ProbeConfig
  filename : String
  offset : Int32
  deriving DecidableEq

def getExecutableMethodFileOffsets (processName fqcn methodName : String) (fqParameters : List String) :
    Prog (Option ExecutableMethodFileOffsets) :=
  ask (.getExecutableMethodFileOffsets ⟨0, 0, processName⟩ ⟨fqcn, methodName, fqParameters⟩) fun requests =>
    .ok ((dev.offsets requests ⟨0, 0, processName⟩ ⟨fqcn, methodName, fqParameters⟩).toOption.bind id)

/-- The loop over the files, with the offset that the file before gave: a file with a positive one ends it. -/
def findInOatFiles (methodSignature : String) : List String → Int32 → Prog (String × Int32)
  | [], offset => pure ("", offset)
  | filePath :: filePaths, _ => do
    let offset ← getMethodOffsetFromOatdump dev reader filePath methodSignature
    if 0 < offset then pure (filePath, offset) else findInOatFiles methodSignature filePaths offset

def resolveProbe (taskConfig : Task) (probeConfig : ProbeConfig) : Prog ResolvedProbe := do
  if dev.flags.executableMethodFileOffsets && probeConfig.fullyQualifiedClassName.isSome then
    let offsets ← getExecutableMethodFileOffsets dev (taskConfig.targetProcessName.getD "")
      (probeConfig.fullyQualifiedClassName.getD "") (probeConfig.methodName.getD "")
      probeConfig.fullyQualifiedParameters
    let offsets ← lift (okOr offsets "Unable to find method offset for class")
    pure { probeConfig, filename := offsets.containerPath, offset := offsets.methodOffset.toUInt32.toInt32 }
  else
    let (filename, offset) ← findInOatFiles dev reader (probeConfig.methodSignature.getD "") probeConfig.filePaths 0
    lift (ensure (offset ≠ 0) "Unable to find method offset")
    pure { probeConfig, filename, offset }

def resolveProbes (taskConfig : Task) : Prog (List ResolvedProbe) := do
  lift (ensure (taskConfig.probeConfigs ≠ []) "task has no probe configs")
  taskConfig.probeConfigs.mapM (resolveProbe dev reader taskConfig)

end Device

end UprobeStats.Cxx
