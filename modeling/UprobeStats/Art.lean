import UprobeStats.Device
import UprobeStats.Lib.Text

/-! Android Runtime integration: `art.rs`. -/

namespace UprobeStats
open Rust Text

/-- `lines`: the ends of lines are `\n` or `\r\n`, and the last one is optional. -/
def lines (s : String) : List String :=
  let parts := s.toList.splitOn '\n'
  let strip (cs : List Char) := if cs.getLast? = some '\r' then cs.dropLast else cs
  let last := parts.getLastD []
  (parts.dropLast.map strip ++ if last = [] then [] else [last]).map String.ofList

/-- `trim_start_matches("0x")` -/
def trimStart0x : List Char → List Char
  | '0' :: 'x' :: cs => trimStart0x cs
  | cs => cs

def hexDigit? (c : Char) : Option Nat :=
  if c.isDigit then some (c.toNat - '0'.toNat)
  else if 'a' ≤ c ∧ c ≤ 'f' then some (c.toNat - 'a'.toNat + 10)
  else if 'A' ≤ c ∧ c ≤ 'F' then some (c.toNat - 'A'.toNat + 10)
  else none

def hexDigits? (cs : List Char) : Option Nat :=
  if cs = [] then none else cs.foldlM (fun n c => (hexDigit? c).map (16 * n + ·)) 0

/-- `i32::from_str_radix` with radix 16. -/
def fromStrRadix16 (cs : List Char) : Option Int32 :=
  let n := match cs with
    | '-' :: cs => (hexDigits? cs).map fun n => -(n : Int)
    | '+' :: cs => (hexDigits? cs).map Int.ofNat
    | cs => (hexDigits? cs).map Int.ofNat
  n.bind fun n => (tryI32 n).toOption

def findOffset (dev : Device) (methodSignature : String) : List String → Except Error (Option Int32)
  | [] => .ok none
  | line :: lines => do
    let json ← okOr (dev.parseJson line) "error parsing oatdump json"
    let method ← okOr json.method "bad json method"
    if method = methodSignature then
      let offset ← okOr json.offset "bad json offset"
      let offset ← okOr (fromStrRadix16 (trimStart0x offset.toList)) s!"could not parse offset {offset}"
      .ok (some offset)
    else findOffset dev methodSignature lines

def getMethodOffsetFromOatdump (dev : Device) (oatFile methodSignature : String) : Prog (Option Int32) :=
  ask (.oatdump oatFile) fun requests => do
    let output ← dev.oatdump requests oatFile
    if !output.success then
      let stderr ← okOr (fromUtf8? output.stderr) "oatdump failed, error parsing stderr"
      .error (.message s!"error from oatdump: {stderr}")
    else
      let stdout ← okOr (fromUtf8? output.stdout) "could not read oatdump stdout"
      findOffset dev methodSignature (lines stdout)

end UprobeStats
