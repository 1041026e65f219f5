import UprobeStats.Lib.Text
import Mathlib.Data.UInt

/-! The version of the running kernel: `KernelUtils.h`. -/

namespace UprobeStats.BpfLoad
open Text

/-! ### `sscanf` -/

/-- `%u`: digits after blanks and a sign. They are read as 64 bits, and a number out of range as the greatest one,
    and cut to an `unsigned`. -/
def scanUnsigned (text : List UInt8) : Option (UInt32 × List UInt8) :=
  let (negative, text) := scanSign (text.dropWhile isSpaceByte)
  let n := decimal (text.takeWhile isDigitByte)
  if text.takeWhile isDigitByte = [] then none
  else if 2 ^ 64 ≤ n then some (0xFFFFFFFF, text.dropWhile isDigitByte)
  else some (UInt32.ofNat (if negative then 2 ^ 64 - n else n), text.dropWhile isDigitByte)

/-- `.%u` -/
def scanDotUnsigned (text : List UInt8) : Option (UInt32 × List UInt8) :=
  if text.head? = some 46 then scanUnsigned text.tail else none

/-- `"%u.%u.%u"`: from where the text stops to fit on, the numbers stay zero. -/
def scanVersion (text : List UInt8) : UInt32 × UInt32 × UInt32 :=
  match scanUnsigned text with
  | none => (0, 0, 0)
  | some (kverMajor, text) =>
    match scanDotUnsigned text with
    | none => (kverMajor, 0, 0)
    | some (kverMinor, text) => (kverMajor, kverMinor, ((scanDotUnsigned text).map Prod.fst).getD 0)

/-! ### Versions -/

def kver (a b c : UInt32) : UInt32 := (a <<< 24) + (b <<< 16) + c

/-- The release of the kernel, unless `uname` fails or the property `ro.bpf.kver_override` has another. -/
def uncachedKernelVersion (release : Option (List UInt8)) (kverOverride : List UInt8) : UInt32 :=
  match release with
  | none => 0
  | some release =>
    let (kverMajor, kverMinor, kverSub) := scanVersion (if kverOverride ≠ [] then kverOverride else release)
    kver kverMajor kverMinor kverSub

end UprobeStats.BpfLoad
