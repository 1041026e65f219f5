import UprobeStats.Config
import UprobeStats.Handler
import UprobeStats.Structs
import UprobeStats.Lib.BoundedMap

/-! The device that a run of the program works on: what it asks of the device and what the device
    answers. The hash map `interfaces` of the Binder program is pinned and outlives a run. -/

namespace UprobeStats
open Rust Effect

/-! ### The offsets API -/

structure TargetProcess where
  uid : UInt32
  pid : Int32
  processName : String
  deriving DecidableEq

structure MethodDescriptor where
  fullyQualifiedClassName : String
  methodName : String
  fullyQualifiedParameters : List String
  deriving DecidableEq

structure ExecutableMethodFileOffsets where
  containerPath : String
  methodOffset : UInt64
  deriving DecidableEq

/-- `binder::Status`, as far as the resolver looks at it. -/
structure Status where
  exceptionCode : Int32
  serviceSpecificError : Int32

/-! ### Processes -/

structure ProcEntry where
  name : List UInt8
  isDir : Bool
  cmdline : Option (List UInt8)
  deriving DecidableEq

structure StartEvent where
  pid : Int32
  processUid : UInt32
  packageUid : UInt32
  packageName : String
  processName : String
  deriving DecidableEq

/-! ### Requests -/

/-- What the program asks of the device. An attach is marked with the probe that it is for, or with none
    when it serves to wait for a process. -/
inductive Request where
  | getExecutableMethodFileOffsets (target : TargetProcess) (method : MethodDescriptor)
  | oatdump (oatFile : String)
  | perfEventOpen (probe : Option ResolvedProbe) (filename : String) (offset pid : Int32) (bpfProgramPath : String)
  | openInterfaces
  | putInterface (name : String)
  | getInterface (name : String)
  | getFirstInterface
  | deleteInterface (name : String)
  | registerProcessObserver
  | pollStarts (timeoutMs : Int32)
  | pollRegistry (mapPath : String)
  deriving DecidableEq

structure Output where
  success : Bool
  stdout : List UInt8
  stderr : List UInt8

/-- What `serde_json` finds in a line: the strings under `method` and `offset`. -/
structure JsonLine where
  method : Option String
  offset : Option String

/-- The answers of the device, each time on what was asked before. -/
structure Device where
  flags : Flags
  buildType : Except Error (Option String)
  config : Except Error UprobestatsConfig
  proc : List Request → Option (List (Option ProcEntry))
  offsets : List Request → TargetProcess → MethodDescriptor → Except Int32 (Option ExecutableMethodFileOffsets)
  oatdump : List Request → String → Except Error Output
  parseJson : String → Option JsonLine
  /-- What the `int` that C++ reads an offset into holds before, for a file. -/
  unsetOffset : String → Int32
  perfEventOpen : List Request → Int32
  openInterfaces : List Request → Int32
  firstInterface : List Request → Nat
  registerProcessObserver : List Request → Except Error Unit
  startEvents : List Request → List StartEvent
  startPolls : List Request → List (Round ProcessChange)
  pollRegistry : List Request → String → Except Error Unit

def Device.isUserBuild (dev : Device) : Bool :=
  match dev.buildType with
  | .ok (some val) => val = "user"
  | _ => true

/-! ### Runs -/

abbrev InterfacesMap := BoundedMap BinderInterfaceBpfMapKey BinderCodesBpfMapValue 5000

/-- The state of a run: the map, whether this run holds an accessor to it, everything asked so far, and
    every content that the map has had since the run began. -/
structure World where
  interfaces : InterfacesMap
  accessor : Bool := false
  requests : List Request := []
  contents : List InterfacesMap := []

abbrev Prog := EStateM Error World

/-- A request whose answer depends on the requests before it. -/
def ask {α : Type} (r : Request) (answer : List Request → Except Error α) : Prog α := do
  let w ← get
  set { w with requests := w.requests ++ [r] }
  lift (answer w.requests)

/-- `c_string` fails on a string that holds a zero. -/
def cString (string : String) : Except Error Unit :=
  if 0 ∈ Text.utf8 string then .error (.message "Failed to create CString") else .ok ()

def TargetProcess.new (uid : UInt32) (pid : Int32) (processName : String) : Except Error TargetProcess := do
  cString processName
  .ok ⟨uid, pid, processName⟩

def TargetProcess.systemServer : Except Error TargetProcess := TargetProcess.new 0 0 "system_server"

def MethodDescriptor.new (fullyQualifiedClassName methodName : String) (fullyQualifiedParameters : List String) :
    Except Error MethodDescriptor := do
  cString fullyQualifiedClassName
  cString methodName
  fullyQualifiedParameters.forM cString
  .ok ⟨fullyQualifiedClassName, methodName, fullyQualifiedParameters⟩

/-- `ExecutableMethodFileOffsets::get`: a failure is always service specific. -/
def getOffsets (dev : Device) (target : TargetProcess) (method : MethodDescriptor) :
    Prog (Except Status (Option ExecutableMethodFileOffsets)) :=
  ask (.getExecutableMethodFileOffsets target method) fun requests =>
    .ok ((dev.offsets requests target method).mapError fun status => ⟨-8, status⟩)

def bpfPerfEventOpen (dev : Device) (probe : Option ResolvedProbe) (filename : String) (offset pid : Int32)
    (bpfProgramPath : String) : Prog PUnit :=
  ask (.perfEventOpen probe filename offset pid bpfProgramPath) fun requests => do
    cString filename
    cString bpfProgramPath
    let res := dev.perfEventOpen requests
    ensure (res = 0) s!"Failed to attach BPF. Error code: {res}"

end UprobeStats
