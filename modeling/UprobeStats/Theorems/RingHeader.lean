import UprobeStats.BpfRingbuf

/-! What the reader finds in the header that a producer wrote: the flag of the sample's status, and the
    length that both sides round to the same number of bytes. A sample that fits a ring is far shorter
    than the flag bits. -/

namespace UprobeStats.BpfRingbuf
open Fifo

/-- The header of a sample with this status. -/
def headerOf (len : UInt32) : Fifo.Status → UInt32
  | .busy => len ||| busyBit
  | .committed => len
  | .discarded => len ||| discardBit

/-! ### Bits of a word -/

theorem word_ext {a b : UInt32} (h : ∀ i, a.toNat.testBit i = b.toNat.testBit i) : a = b :=
  UInt32.toNat_inj.mp (Nat.eq_of_testBit_eq h)

theorem testBit_of_le {x : UInt32} {i : Nat} (hi : 32 ≤ i) : x.toNat.testBit i = false :=
  Nat.testBit_lt_two_pow (lt_of_lt_of_le x.toNat_lt (Nat.pow_le_pow_right (by omega) hi))

@[simp] theorem testBit_busyBit (i : Nat) : busyBit.toNat.testBit i = decide (31 = i) := by
  rw [show busyBit.toNat = 2 ^ 31 by decide, Nat.testBit_two_pow]

@[simp] theorem testBit_discardBit (i : Nat) : discardBit.toNat.testBit i = decide (30 = i) := by
  rw [show discardBit.toNat = 2 ^ 30 by decide, Nat.testBit_two_pow]

@[simp] theorem testBit_not_busyBit (i : Nat) : (~~~busyBit).toNat.testBit i = decide (i < 31) := by
  rw [show (~~~busyBit).toNat = 2 ^ 31 - 1 by decide, Nat.testBit_two_pow_sub_one]

@[simp] theorem testBit_not_flags (i : Nat) :
    (~~~(busyBit ||| discardBit)).toNat.testBit i = decide (i < 30) := by
  rw [show (~~~(busyBit ||| discardBit)).toNat = 2 ^ 30 - 1 by decide, Nat.testBit_two_pow_sub_one]

theorem testBit_not_seven (i : Nat) : (~~~(7 : UInt32)).toNat.testBit i = (decide (3 ≤ i) && decide (i < 32)) := by
  rw [show (~~~(7 : UInt32)).toNat = (2 ^ 29 - 1) <<< 3 by decide, Nat.testBit_shiftLeft,
    Nat.testBit_two_pow_sub_one]
  by_cases h : 3 ≤ i
  · simp only [h, decide_true, Bool.true_and, decide_eq_decide]
    omega
  · simp [h]

theorem toNat_and_not_seven (x : UInt32) : (x &&& ~~~7).toNat = x.toNat / 8 * 8 := by
  have hshift : x.toNat / 8 * 8 = (x.toNat >>> 3) <<< 3 := by
    rw [Nat.shiftLeft_eq, Nat.shiftRight_eq_div_pow]
  rw [UInt32.toNat_and, hshift]
  refine Nat.eq_of_testBit_eq fun i => ?_
  rw [Nat.testBit_and, testBit_not_seven, Nat.testBit_shiftLeft, Nat.testBit_shiftRight]
  by_cases h : 3 ≤ i
  · by_cases h32 : i < 32
    · simp [h, h32]
    · simp [h, testBit_of_le (x := x) (show 32 ≤ i by omega)]
  · simp [h]

/-! ### Lengths and flags -/

section Header
variable {len : UInt32} (hlen : len.toNat < 2 ^ 30)
include hlen

theorem testBit_len {i : Nat} (hi : 30 ≤ i) : len.toNat.testBit i = false :=
  Nat.testBit_lt_two_pow (lt_of_lt_of_le hlen (Nat.pow_le_pow_right (by omega) hi))

/-- A bit of a header: the flag bits lie above the bits of the length. -/
theorem testBit_headerOf (status : Fifo.Status) (i : Nat) : (headerOf len status).toNat.testBit i =
    if i < 30 then len.toNat.testBit i else (status = .busy && i = 31) || (status = .discarded && i = 30) := by
  by_cases hi : i < 30
  · have h30 : 30 ≠ i := by omega
    have h31 : 31 ≠ i := by omega
    cases status <;> simp [headerOf, hi, h30, h31]
  · cases status <;> simp [headerOf, hi, testBit_len hlen (show 30 ≤ i by omega), eq_comm]

theorem headerOf_and_busyBit {status : Fifo.Status} : headerOf len status &&& busyBit ≠ 0 ↔ status = .busy := by
  have hbit (i : Nat) : (headerOf len status &&& busyBit).toNat.testBit i = (decide (status = .busy) && 31 = i) := by
    rw [UInt32.toNat_and, Nat.testBit_and, testBit_headerOf hlen, testBit_busyBit]
    by_cases hi : 31 = i
    · subst hi
      simp
    · simp [hi]
  constructor
  · intro h
    by_contra hs
    exact h (word_ext fun i => by rw [hbit]; simp [hs])
  · intro hs h
    have := hbit 31
    rw [h] at this
    simp [hs] at this

theorem headerOf_and_discardBit {status : Fifo.Status} : headerOf len status &&& discardBit = 0 ↔ status ≠ .discarded := by
  have hbit (i : Nat) :
      (headerOf len status &&& discardBit).toNat.testBit i = (decide (status = .discarded) && 30 = i) := by
    rw [UInt32.toNat_and, Nat.testBit_and, testBit_headerOf hlen, testBit_discardBit]
    by_cases hi : 30 = i
    · subst hi
      simp
    · simp [hi]
  constructor
  · intro h hs
    have := hbit 30
    rw [h] at this
    simp [hs] at this
  · intro hs
    exact word_ext fun i => by rw [hbit]; simp [hs]

theorem headerOf_busy_and_not : headerOf len .busy &&& ~~~busyBit = len := by
  refine word_ext fun i => ?_
  rw [UInt32.toNat_and, Nat.testBit_and, testBit_headerOf hlen, testBit_not_busyBit]
  by_cases hi : i < 30
  · simp [hi, show i < 31 by omega]
  · rw [testBit_len hlen (by omega)]
    by_cases h31 : i = 31 <;> simp [hi, h31]

theorem headerOf_and_not_flags {status : Fifo.Status} :
    headerOf len status &&& ~~~(busyBit ||| discardBit) = len := by
  refine word_ext fun i => ?_
  rw [UInt32.toNat_and, Nat.testBit_and, testBit_headerOf hlen, testBit_not_flags]
  by_cases hi : i < 30
  · simp [hi]
  · rw [testBit_len hlen (by omega)]
    simp [hi]

/-- The reader advances by the bytes that the producer took. -/
theorem toNat_roundLength {status : Fifo.Status} : (roundLength (headerOf len status)).toNat = rounded len := by
  unfold roundLength rounded
  simp only [headerOf_and_not_flags hlen, toNat_and_not_seven, UInt32.toNat_add]
  rw [show hdrSz.toNat = 8 by decide, show (7 : UInt32).toNat = 7 by decide]
  omega

end Header

end UprobeStats.BpfRingbuf
