import UprobeStats.Device
import UprobeStats.BpfFns

/-! Binder transactions: the filter map `interfaces`, its accessor in `binder_transaction.rs`, and the
    program of `Binder.c` that looks it up. -/

namespace UprobeStats
open Rust Effect Text

/-! ### The codec of the map -/

def toCKey (key : String) : BinderInterfaceBpfMapKey := ⟨(Chars.zeros 128).write ((utf8 key).take 128)⟩

def toCValue (value : List UInt64) : BinderCodesBpfMapValue := ⟨fun i => (value.take 10).getD i 0⟩

def fromCValue (value : BinderCodesBpfMapValue) : List UInt64 := List.ofFn value.codes

def fromCKey (key : BinderInterfaceBpfMapKey) : String :=
  match bytesAsStr key.interfaceDescriptor with
  | .ok s => s
  | .error _ => ""

/-! ### The accessor -/

/-- The negated error number that a failed map operation returns. -/
def resOf : Errno → Int
  | .exist => -17
  | .noEntry => -2
  | .tooBig => -7

def setInterfaces (m : InterfacesMap) : Prog PUnit :=
  modify fun w => { w with interfaces := m, contents := w.contents ++ [m] }

def newAccessor (dev : Device) : Prog PUnit := do
  ask .openInterfaces fun requests => do
    let res := dev.openInterfaces requests
    ensure (res = 0) s!"Failed to open BPF map at /sys/fs/bpf/uprobestats/map_Binder_interfaces: error {res}"
  modify fun w => { w with accessor := true }

def put (key : String) (value : List UInt64) (flags : UpdateFlag) : Prog PUnit := do
  ask (.putInterface key) fun _ => .ok ()
  let w ← get
  match w.interfaces.update (toCKey key) (toCValue value) flags with
  | .ok m => setInterfaces m
  | .error e =>
    let res := resOf e
    throw (.message s!"Failed to write to BPF map. Error code: {res}")

def BpfMapAccessor.get (key : String) : Prog (Option (List UInt64)) := do
  ask (.getInterface key) fun _ => .ok ()
  let w ← MonadState.get
  pure ((w.interfaces.lookup (toCKey key)).map fromCValue)

/-- The first key of the map, whichever that is. -/
def getFirstKey (dev : Device) : Prog (Option String) := do
  let n ← ask .getFirstInterface fun requests => .ok (dev.firstInterface requests)
  let w ← get
  pure (w.interfaces.keys[n % w.interfaces.keys.length]?.map fromCKey)

def delete (key : String) : Prog Bool := do
  ask (.deleteInterface key) fun _ => .ok ()
  let w ← get
  match w.interfaces.delete (toCKey key) with
  | .ok m => do
    setInterfaces m
    pure true
  | .error _ => pure false

/-- The loop of `drain`; `false` when the fuel ends before the loop does. -/
def drainLoop (dev : Device) : Nat → Prog Bool
  | 0 => pure false
  | fuel + 1 => do
    match ← getFirstKey dev with
    | none => pure true
    | some key =>
      let deleted ← delete key
      if deleted then drainLoop dev fuel else throw (.message s!"Failed to delete key {key}")

def drain (dev : Device) : Prog Bool := do
  let w ← get
  drainLoop dev (w.interfaces.keys.length + 1)

/-- The destructor of the accessor, if the run holds one. -/
def dropAccessor (dev : Device) (w : World) : World :=
  if w.accessor then { after ((drain dev).run w) with accessor := false } else w

/-! ### The program -/

def kBinderDescriptorOffset : UInt64 := 8

def transactionKey (ctx : PtRegs) (mem : Memory) : BinderInterfaceBpfMapKey :=
  let descriptorPtr := readRef mem (ctx.regs 1 + kBinderDescriptorOffset)
  ⟨recordString mem descriptorPtr 128 (Chars.zeros 128)⟩

/-- The loop over the codes of an interface: a zero ends it, and the first match submits a record, if the
    ring has room. -/
def matchCodes (code : UInt64) (submit : Option BinderTransaction) : List UInt64 → List BinderTransaction
  | [] => []
  | c :: codes =>
    if c = 0 then []
    else if c ≠ code then matchCodes code submit codes
    else submit.toList

def execTransactInternal (ctx : PtRegs) (mem : Memory) (ktimeNs : UInt64) (slot : Option BinderTransaction)
    (interfaces : InterfacesMap) : List BinderTransaction :=
  let key := transactionKey ctx mem
  match interfaces.lookup key with
  | none => []
  | some value =>
    let output := slot.map fun _ =>
      { interfaceDescriptor := key.interfaceDescriptor
        callingUid := (ctx.regs 6).toUInt32.toInt32
        code := ctx.regs 2
        timestampNs := ktimeNs }
    matchCodes (ctx.regs 2) output (List.ofFn value.codes)

end UprobeStats
