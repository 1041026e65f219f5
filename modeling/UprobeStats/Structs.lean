import UprobeStats.Lib.Rust
import UprobeStats.Lib.Text

/-! The records that the BPF programs and the handlers share: `uprobestats_bpf_structs.h`. -/

namespace UprobeStats
open Rust Text

/-! ### Character arrays -/

/-- A `char[n]` of a record. -/
@[ext] structure Chars (n : Nat) where
  bytes : List UInt8
  length_eq : bytes.length = n
  deriving DecidableEq

namespace Chars
variable {n : Nat}

def write (dst : Chars n) (bs : List UInt8) : Chars n where
  bytes := (bs ++ dst.bytes.drop bs.length).take n
  length_eq := by
    have := dst.length_eq
    simp
    omega

def zeros (n : Nat) : Chars n := ⟨List.replicate n 0, List.length_replicate⟩

theorem write_bytes {dst : Chars n} {bs : List UInt8} (h : bs.length ≤ n) :
    (dst.write bs).bytes = bs ++ dst.bytes.drop bs.length := by
  have := dst.length_eq
  exact List.take_of_length_le (by simp; omega)

end Chars

/-- `bytes_as_str`: the string up to the first zero of the array. -/
def bytesAsStr {n : Nat} (bytes : Chars n) : Except Error String :=
  match untilNul bytes.bytes with
  | none => .error .fromBytesUntilNul
  | some string => match fromUtf8? string with
    | none => .error .utf8
    | some str => .ok str

theorem bytesAsStr_eq_ok {n : Nat} {bytes : Chars n} {s : String} :
    bytesAsStr bytes = .ok s ↔ untilNul bytes.bytes = some (utf8 s) := by
  unfold bytesAsStr
  cases untilNul bytes.bytes with
  | none => simp
  | some front =>
    cases hs : fromUtf8? front with
    | none =>
      simp only [hs, Option.some.injEq, reduceCtorEq, false_iff]
      rintro rfl
      simp at hs
    | some str => simp [← fromUtf8?_eq_some.mp hs]

/-! ### Records -/

/-- The numerals that name registers share this instance. -/
instance neZero_registers : NeZero 31 := ⟨by decide⟩

/-- `pt_regs`, as far as the programs read it. -/
structure PtRegs where
  regs : Fin 31 → UInt64
  sp : UInt64

abbrev maxStringLength : Nat := 128

structure BindServiceLocked where
  intentAction : Chars maxStringLength
  intentPackage : Chars maxStringLength
  intentComponentNamePackage : Chars maxStringLength
  intentComponentNameClass : Chars maxStringLength
  bindFlags : Int64
  callingPackage : Chars maxStringLength
  deriving DecidableEq

structure ComponentEnabledSetting where
  packageName : Chars maxStringLength
  className : Chars maxStringLength
  newState : Int32
  callingPackageName : Chars maxStringLength
  deriving DecidableEq

structure ProcessChange where
  pid : Int32
  uid : Int32
  processName : Chars 256
  deriving DecidableEq

structure BitmapAllocation where
  type : UInt32
  width : UInt32
  height : UInt32
  pixelStorageType : UInt32
  bitmapSize : UInt32
  nativePtr : UInt64
  activityName : Chars 128
  deriving DecidableEq

structure BinderTransaction where
  interfaceDescriptor : Chars maxStringLength
  code : UInt64
  callingUid : Int32
  timestampNs : UInt64
  deriving DecidableEq

structure BinderInterfaceBpfMapKey where
  interfaceDescriptor : Chars maxStringLength
  deriving DecidableEq

structure BinderCodesBpfMapValue where
  codes : Fin 10 → UInt64

structure CallResult where
  pc : UInt64
  regs : Fin 10 → UInt64

structure CallTimestamp where
  event : UInt32
  timestampNs : UInt64
  deriving DecidableEq

end UprobeStats
