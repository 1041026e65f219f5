import UprobeStats.Structs
import UprobeStats.Lib.Bytes

/-! What the BPF programs read of the memory of the traced process: the helpers of the kernel, and
    `uprobestats_bpf_fns.h` over them. -/

namespace UprobeStats

/-- The memory of the traced process: reading an address that is not mapped faults. -/
abbrev Memory := UInt64 → Option UInt8

def Memory.ofBytes (base : UInt64) (bs : List UInt8) : Memory := fun a => bs[(a - base).toNat]?

/-! ### Kernel helpers -/

def Memory.read? (mem : Memory) : Nat → UInt64 → Option (List UInt8)
  | 0, _ => some []
  | size + 1, src => do
    let b ← mem src
    let bs ← mem.read? size (src + 1)
    some (b :: bs)

/-- The bytes of the C string at an address, at most `size` of them and without their zero, if none faults. -/
def Memory.readStr? (mem : Memory) : Nat → UInt64 → Option (List UInt8)
  | 0, _ => some []
  | size + 1, src => do
    let b ← mem src
    if b = 0 then some []
    else
      let bs ← mem.readStr? size (src + 1)
      some (b :: bs)

/-- `bpf_probe_read_user` fills its destination with zeros when a read faults. -/
def bpfProbeReadUser (mem : Memory) (size : Nat) (src : UInt64) : List UInt8 :=
  (mem.read? size src).getD (List.replicate size 0)

/-- `bpf_probe_read_user_str` copies at most `size - 1` bytes and ends them with a zero; what lies behind
    it in the destination stays. A fault fills `size` bytes with zeros. -/
def bpfProbeReadUserStr {n : Nat} (mem : Memory) (dst : Chars n) (size : Nat) (src : UInt64) : Chars n :=
  if size = 0 then dst
  else match mem.readStr? (size - 1) src with
    | some bs => dst.write (bs ++ [0])
    | none => dst.write (List.replicate size 0)

/-- `bpf_probe_read_user` of four bytes into an integer that was zero. -/
def readUser32 (mem : Memory) (src : UInt64) : UInt32 := UInt32.ofNat (Bytes.ofLe (bpfProbeReadUser mem 4 src))

def readRef (mem : Memory) (src : UInt64) : UInt64 := (readUser32 mem src).toUInt64

def readUser64 (mem : Memory) (src : UInt64) : UInt64 := UInt64.ofNat (Bytes.ofLe (bpfProbeReadUser mem 8 src))

/-! ### `uprobestats_bpf_fns.h` -/

/-- Copies the content of a Java String object to `dest`. -/
def recordString {n : Nat} (mem : Memory) (jstring : UInt64) (maxLength : UInt32) (dest : Chars n) : Chars n :=
  let count := readUser32 mem (jstring + 8) / 2
  bpfProbeReadUserStr mem dest (if maxLength < count + 1 then maxLength else count + 1).toNat (jstring + 16)

def recordStringArgFromSp {n : Nat} (mem : Memory) (ctx : PtRegs) (maxLength : UInt32) (spOffset : UInt64)
    (dest : Chars n) : Chars n :=
  let jstring := readRef mem (ctx.sp + spOffset)
  recordString mem jstring maxLength dest

/-- The address that `load` reads: the one given without its top byte, plus an offset. -/
def loadAddress (offset : UInt64) (userSpaceAddress : UInt64) : UInt64 :=
  (userSpaceAddress &&& 0x00FFFFFFFFFFFFFF) + offset

def load32 (mem : Memory) (offset userSpaceAddress : UInt64) : UInt32 :=
  readUser32 mem (loadAddress offset userSpaceAddress)

def load64 (mem : Memory) (offset userSpaceAddress : UInt64) : UInt64 :=
  readUser64 mem (loadAddress offset userSpaceAddress)

/-- A probe fires: the registers and the memory of the process, and what the slot held before that the
    ring gives to the program. -/
structure Firing (T : Type) where
  ctx : PtRegs
  mem : Memory
  pidTgid : UInt64
  slot : T

/-! ### Lemmas -/

theorem Memory.readStr?_spec {mem : Memory} {size : Nat} {src : UInt64} {bs : List UInt8}
    (h : mem.readStr? size src = some bs) : 0 ∉ bs ∧ bs.length ≤ size := by
  induction size generalizing src bs with
  | zero => cases h; simp
  | succ size ih =>
    obtain ⟨b, -, h⟩ := Option.bind_eq_some_iff.mp h
    split at h
    · cases h
      simp
    · rename_i hb
      obtain ⟨bs', hbs, h⟩ := Option.bind_eq_some_iff.mp h
      cases h
      obtain ⟨h0, hle⟩ := ih hbs
      exact ⟨by simp [h0, Ne.symm hb], by simpa using hle⟩

theorem readUser32_eq {mem : Memory} {src : UInt64} {x : UInt32}
    (h : mem.read? 4 src = some (Bytes.toLe 4 x.toNat)) : readUser32 mem src = x := by
  rw [readUser32, bpfProbeReadUser, h]
  exact Bytes.ofLe_toLe_uint32 x

theorem readUser64_eq {mem : Memory} {src : UInt64} {x : UInt64}
    (h : mem.read? 8 src = some (Bytes.toLe 8 x.toNat)) : readUser64 mem src = x := by
  have hx := x.toNat_lt
  rw [readUser64, bpfProbeReadUser, h, Option.getD_some, Bytes.ofLe_toLe, Nat.mod_eq_of_lt (by omega),
    UInt64.ofNat_toNat]

/-- A destination that holds the string it is given ends in a zero: `recordString` leaves room for it. -/
theorem untilNul_bpfProbeReadUserStr {n : Nat} {mem : Memory} {dst : Chars n} {size : Nat} {src : UInt64}
    (hpos : 0 < size) (hle : size ≤ n) :
    Text.untilNul (bpfProbeReadUserStr mem dst size src).bytes = some ((mem.readStr? (size - 1) src).getD []) := by
  unfold bpfProbeReadUserStr
  rw [if_neg (by omega)]
  cases h : mem.readStr? (size - 1) src with
  | none =>
    rw [Chars.write_bytes (by simpa using hle)]
    obtain ⟨k, rfl⟩ := Nat.exists_eq_succ_of_ne_zero (Nat.pos_iff_ne_zero.mp hpos)
    rfl
  | some bs =>
    obtain ⟨h0, hlen⟩ := Memory.readStr?_spec h
    rw [Chars.write_bytes (by simp; omega), List.append_assoc]
    exact Text.untilNul_append_zero h0

def recorded (mem : Memory) (jstring : UInt64) (maxLength : UInt32) : List UInt8 :=
  let count := readUser32 mem (jstring + 8) / 2
  (mem.readStr? ((if maxLength < count + 1 then maxLength else count + 1).toNat - 1) (jstring + 16)).getD []

/-- `recordString` puts a string that ends inside its destination there, whatever was there before. -/
theorem untilNul_recordString {n : Nat} {mem : Memory} {jstring : UInt64} {maxLength : UInt32} {dest : Chars n}
    (hpos : 0 < maxLength.toNat) (hle : maxLength.toNat ≤ n) :
    Text.untilNul (recordString mem jstring maxLength dest).bytes = some (recorded mem jstring maxLength) := by
  have hcount : (readUser32 mem (jstring + 8) / 2 + 1).toNat = (readUser32 mem (jstring + 8)).toNat / 2 + 1 := by
    have := (readUser32 mem (jstring + 8)).toNat_lt
    rw [UInt32.toNat_add, UInt32.toNat_div]
    simp
    omega
  apply untilNul_bpfProbeReadUserStr
  · split <;> omega
  · split
    · exact hle
    · rename_i h
      rw [UInt32.lt_iff_toNat_lt] at h
      omega

/-- What `recordString` leaves in a record decodes exactly when the bytes that it copied are UTF-8. -/
theorem bytesAsStr_recordString {n : Nat} {mem : Memory} {jstring : UInt64} {maxLength : UInt32} {dest : Chars n}
    (hpos : 0 < maxLength.toNat) (hle : maxLength.toNat ≤ n) :
    (∃ s, bytesAsStr (recordString mem jstring maxLength dest) = .ok s) ↔
      (Text.fromUtf8? (recorded mem jstring maxLength)).isSome := by
  simp only [bytesAsStr_eq_ok, untilNul_recordString hpos hle, Option.some.injEq, Option.isSome_iff_exists,
    Text.fromUtf8?_eq_some]
  exact exists_congr fun s => eq_comm

end UprobeStats
