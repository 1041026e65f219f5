import UprobeStats.Device
import UprobeStats.Lib.Text

/-! The target process of a task: `process.rs`. -/

namespace UprobeStats
open Rust Effect Text

structure ResolvedProcess where
  pid : Int32
  uid : Int32
  name : String
  deriving DecidableEq

/-! ### Running processes -/

def ProcEntry.number? (entry : ProcEntry) : Option Int32 := do
  let pidStr ← fromUtf8? entry.name
  let pid ← parseInt? pidStr
  (tryI32 pid).toOption

/-- The pid that an entry gives for a process name: its command line is the name or starts with it. -/
def ProcEntry.pid? (entry : ProcEntry) (processName : String) : Option Int32 :=
  if entry.isDir then do
    let cmdline ← entry.cmdline
    let cmdline := lossy cmdline
    if cmdline = utf8 processName ∨ (utf8 processName).isPrefixOf cmdline then entry.number? else none
  else none

/-- The search of `get_pid`; an entry that cannot be read ends it. -/
def findPid (processName : String) : List (Option ProcEntry) → Option Int32
  | [] => none
  | none :: _ => none
  | some entry :: entries =>
    match entry.pid? processName with
    | some pid => some pid
    | none => findPid processName entries

def getPid (dev : Device) (processName : String) : Prog (Option Int32) := do
  let w ← get
  pure ((dev.proc w.requests).bind (findPid processName))

/-! ### Process starts -/

/-- The first start that the observer passes on. -/
def AppStartObserver.onProcessStarted (targetProcessName : Option String) (e : StartEvent) :
    Option ResolvedProcess :=
  match targetProcessName with
  | some targetName =>
    if targetName ≠ e.processName then none else some ⟨e.pid, e.processUid.toInt32, e.processName⟩
  | none => some ⟨e.pid, e.processUid.toInt32, e.processName⟩

def waitForAppStartObserver (dev : Device) (processName : Option String) : Prog ResolvedProcess := do
  ask .registerProcessObserver dev.registerProcessObserver
  let w ← get
  lift (okOr ((dev.startEvents w.requests).findSome? (AppStartObserver.onProcessStarted processName))
    "Timeout waiting for process start: timed out waiting on channel")

def makeActiveDescriptor : Except Error MethodDescriptor :=
  MethodDescriptor.new "com.android.server.am.ProcessRecord" "makeActive"
    ["com.android.server.am.ApplicationThreadDeferred", "com.android.server.am.ProcessStatsService"]

def onProcessActiveDescriptor : Except Error MethodDescriptor :=
  MethodDescriptor.new "com.android.server.am.ProcessProfileRecord" "onProcessActive"
    ["android.app.IApplicationThread", "com.android.server.am.ProcessStatsService"]

def getSystemServerOffsets (dev : Device) (descriptor : Except Error MethodDescriptor) (method : String) :
    Prog ExecutableMethodFileOffsets := do
  let target ← lift TargetProcess.systemServer
  let descriptor ← lift descriptor
  match ← getOffsets dev target descriptor with
  | .error _ => throw (.message s!"Failed to get offsets for {method}")
  | .ok offsets => lift (okOr offsets s!"Could not find offsets for {method}")

def bpfProgProcessManagementMakeActive : String := "prog_ProcessManagement_uprobe_make_active"
def bpfProgProcessManagementOnProcessActive : String := "prog_ProcessManagement_uprobe_on_process_active"

/-- Where the start of a process can be probed, and the program to attach there. -/
def getAppStartOffsets (dev : Device) : Prog (ExecutableMethodFileOffsets × String) := do
  let makeActive ← attempt (getSystemServerOffsets dev makeActiveDescriptor "ProcessRecord#makeActive")
  match makeActive with
  | .ok offsets => pure (offsets, bpfProgProcessManagementMakeActive)
  | .error _ => do
    let offsets ← getSystemServerOffsets dev onProcessActiveDescriptor "ProcessProfileRecord#onProcessActive"
    pure (offsets, bpfProgProcessManagementOnProcessActive)

/-- What the wait makes of a record: an error of its name, a process to return, or nothing. -/
def acceptChange (processName : Option String) (change : ProcessChange) : Except Error (Option ResolvedProcess) := do
  let resultProcessName ← bytesAsStr change.processName
  if processName = none ∨ processName = some resultProcessName then
    if change.pid ≤ 0 then .ok none else .ok (some ⟨change.pid, change.uid, resultProcessName⟩)
  else .ok none

def acceptChanges (processName : Option String) : List ProcessChange → Except Error (Option ResolvedProcess)
  | [] => .ok none
  | change :: changes => do
    match ← acceptChange processName change with
    | some resolved => .ok (some resolved)
    | none => acceptChanges processName changes

def waitTimeout (processName : Option String) (duration : Nat) : Error :=
  let seconds := duration / 1000
  let processName := match processName with
    | some name => "Some(\"" ++ name ++ "\")"
    | none => "None"
  .message s!"Timeout waiting duration {seconds}s for process_name {processName}"

/-- The loop of `wait_for_app_start_uprobe` over the polls that the device gives it before the timer has
    expired. -/
def waitLoop (processName : Option String) (duration : Nat) : List (Round ProcessChange) → Prog ResolvedProcess
  | [] => throw (waitTimeout processName duration)
  | round :: rounds =>
    match remainingMillis duration round.elapsed with
    | none => throw (waitTimeout processName duration)
    | some remaining => do
      let remaining ← lift (tryI32 remaining)
      let result ← ask (.pollStarts remaining) fun _ => round.polled
      match ← lift (acceptChanges processName result) with
      | some resolved => pure resolved
      | none => waitLoop processName duration rounds

def waitForAppStartUprobe (dev : Device) (processName : Option String) (duration : Nat) : Prog ResolvedProcess := do
  let systemServerPid ← getPid dev "system_server"
  let systemServerPid ← lift (okOr systemServerPid "failed to get system server pid")
  let (offsets, bpfProgName) ← getAppStartOffsets dev
  let offset ← lift (tryI32 offsets.methodOffset.toNat)
  bpfPerfEventOpen dev none offsets.containerPath offset systemServerPid (prefixBpf bpfProgName)
  let w ← get
  waitLoop processName duration (dev.startPolls w.requests)

def waitForAppStart (dev : Device) (processName : Option String) (duration : Nat) : Prog ResolvedProcess :=
  if dev.flags.useProcessObserverApi then waitForAppStartObserver dev processName
  else waitForAppStartUprobe dev processName duration

def resolveProcess (dev : Device) (targetProcessName : Option String)
    (targetProcessSelection : TargetProcessSelection) (duration : Nat) : Prog ResolvedProcess :=
  match targetProcessSelection with
  | .specificAppProcessOnStart => waitForAppStart dev targetProcessName duration
  | .anyAppProcessOnStart => waitForAppStart dev none duration
  | .specificProcessName | .unknown => do
    let selection := targetProcessSelection.name
    let processName ← lift (okOr targetProcessName s!"Process name is required for selection type {selection}")
    let pid ← getPid dev processName
    let pid ← lift (okOr pid s!"Can't find pid for {processName}")
    pure ⟨pid, 0, processName⟩

end UprobeStats
