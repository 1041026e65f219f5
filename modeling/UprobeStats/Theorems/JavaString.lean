import UprobeStats.BpfFns

/-! Java strings in the memory of the traced process, and what the programs make of them. A record decodes to
    the first characters of the string that it was given, whatever its slot held before. -/

namespace UprobeStats
open Rust Text

/-! ### The string -/

/-- The string can be stored with one byte for each character. -/
def NulFreeAscii (s : String) : Prop := ∀ c ∈ s.toList, c ≠ '\x00' ∧ c.toNat < 128

instance (s : String) : Decidable (NulFreeAscii s) := List.decidableBAll _ _

/-- The first characters of a string. -/
def firstChars (s : String) (n : Nat) : String := String.ofList (s.toList.take n)

section NulFreeAscii
variable {s : String}

theorem NulFreeAscii.utf8_eq (h : NulFreeAscii s) : utf8 s = s.toList.map fun c => UInt8.ofNat c.toNat :=
  utf8_of_ascii fun c hc => (h c hc).2

theorem NulFreeAscii.nulFree (h : NulFreeAscii s) : 0 ∉ utf8 s := by
  rw [h.utf8_eq, List.mem_map]
  rintro ⟨c, hc, hzero⟩
  obtain ⟨hne, hlt⟩ := h c hc
  have hnat := congrArg UInt8.toNat hzero
  rw [UInt8.toNat_ofNat', Nat.mod_eq_of_lt (by omega)] at hnat
  exact hne (Char.ext (UInt32.toNat_inj.mp hnat))

theorem NulFreeAscii.firstChars (h : NulFreeAscii s) (n : Nat) : NulFreeAscii (firstChars s n) := by
  intro c hc
  rw [UprobeStats.firstChars, String.toList_ofList] at hc
  exact h c (List.mem_of_mem_take hc)

theorem NulFreeAscii.utf8_firstChars (h : NulFreeAscii s) (n : Nat) :
    utf8 (UprobeStats.firstChars s n) = (utf8 s).take n := by
  rw [(h.firstChars n).utf8_eq, h.utf8_eq, UprobeStats.firstChars, String.toList_ofList, List.map_take]

theorem firstChars_of_length_le {n : Nat} (h : s.length ≤ n) : firstChars s n = s := by
  rw [firstChars, List.take_of_length_le (by rwa [String.length_toList]), String.ofList_toList]

theorem length_firstChars {n : Nat} : (firstChars s n).length = min n s.length := by
  rw [firstChars, String.length_ofList, List.length_take, String.length_toList]

end NulFreeAscii

/-! ### The memory -/

/-- A Java string object: twice its length, and one byte for each of its characters. -/
structure Memory.HoldsString (mem : Memory) (jstring : UInt64) (s : String) : Prop where
  fits : 2 * s.length < 2 ^ 32
  count : mem.read? 4 (jstring + 8) = some (Bytes.toLe 4 (2 * s.length))
  content : mem.read? s.length (jstring + 16) = some (utf8 s)

/-- A reference of four bytes to a Java string. -/
def Memory.RefersTo (mem : Memory) (src : UInt64) (s : String) : Prop :=
  ∃ ref : UInt32, mem.read? 4 src = some (Bytes.toLe 4 ref.toNat) ∧ mem.HoldsString ref.toUInt64 s

/-- The count cannot be read, or a character cannot that is to be copied; the first one counts even where none is. -/
def Memory.StringFaults (mem : Memory) (jstring : UInt64) (maxLength : UInt32) : Prop :=
  mem.read? 4 (jstring + 8) = none ∨
    ∃ length < 2 ^ 31, mem.read? 4 (jstring + 8) = some (Bytes.toLe 4 (2 * length)) ∧
      ∃ i < length, i < max 1 (maxLength.toNat - 1) ∧ mem (jstring + 16 + UInt64.ofNat i) = none ∧
        ∀ j < i, mem (jstring + 16 + UInt64.ofNat j) ≠ some 0

/-- No process maps the page at zero: the count of a null reference cannot be read. -/
def Memory.NullUnmapped (mem : Memory) : Prop := mem.read? 4 8 = none

section Reads
variable {mem : Memory}

theorem Memory.readStr?_of_read? : ∀ {size : Nat} {src : UInt64} {bs : List UInt8},
    mem.read? size src = some bs → 0 ∉ bs → mem.readStr? size src = some bs
  | 0, _, _, h, _ => h
  | size + 1, src, bs, h, h0 => by
    obtain ⟨b, hb, h⟩ := Option.bind_eq_some_iff.mp h
    obtain ⟨bs', hbs, h⟩ := Option.bind_eq_some_iff.mp h
    cases h
    rw [List.mem_cons, not_or] at h0
    simp [Memory.readStr?, hb, Ne.symm h0.1, Memory.readStr?_of_read? hbs h0.2]

theorem Memory.read?_take : ∀ {n k : Nat} {src : UInt64} {bs : List UInt8},
    mem.read? n src = some bs → k ≤ n → mem.read? k src = some (bs.take k)
  | _, 0, _, _, _, _ => rfl
  | n + 1, k + 1, src, bs, h, hk => by
    obtain ⟨b, hb, h⟩ := Option.bind_eq_some_iff.mp h
    obtain ⟨bs', hbs, h⟩ := Option.bind_eq_some_iff.mp h
    cases h
    simp [Memory.read?, hb, Memory.read?_take hbs (Nat.le_of_succ_le_succ hk)]

theorem Memory.readStr?_eq_none : ∀ {size i : Nat} {src : UInt64}, i < size →
    mem (src + UInt64.ofNat i) = none → (∀ j < i, mem (src + UInt64.ofNat j) ≠ some 0) → mem.readStr? size src = none
  | size + 1, 0, src, _, hfault, _ => by
    have hsrc : mem src = none := by simpa using hfault
    rw [Memory.readStr?, hsrc, Option.bind_eq_bind, Option.bind_none]
  | size + 1, i + 1, src, hi, hfault, hnul => by
    have hshift : ∀ j, src + 1 + UInt64.ofNat j = src + UInt64.ofNat (j + 1) := by
      intro j
      rw [UInt64.ofNat_add, add_assoc, add_comm (UInt64.ofNat j)]
      rfl
    have hrest : mem.readStr? size (src + 1) = none := by
      refine Memory.readStr?_eq_none (Nat.lt_of_succ_lt_succ hi) (by rw [hshift]; exact hfault) fun j hj => ?_
      rw [hshift]
      exact hnul (j + 1) (Nat.succ_lt_succ hj)
    cases hb : mem src with
    | none => rw [Memory.readStr?, hb, Option.bind_eq_bind, Option.bind_none]
    | some b =>
      have hne : b ≠ 0 := by
        rintro rfl
        exact hnul 0 (Nat.succ_pos i) (by simpa using hb)
      simp [Memory.readStr?, hb, hne, hrest]

end Reads

/-! ### The copy -/

section Copy
variable {mem : Memory} {jstring : UInt64} {maxLength : UInt32}

theorem readUser32_of_length {src : UInt64} {length : Nat} (hfits : 2 * length < 2 ^ 32)
    (hread : mem.read? 4 src = some (Bytes.toLe 4 (2 * length))) : (readUser32 mem src).toNat = 2 * length := by
  have hword : (UInt32.ofNat (2 * length)).toNat = 2 * length := by
    rw [UInt32.toNat_ofNat', Nat.mod_eq_of_lt (by omega)]
  rw [readUser32_eq (x := UInt32.ofNat (2 * length)) (by rw [hword, hread]), hword]

theorem readUser32_of_fault {src : UInt64} (hread : mem.read? 4 src = none) : readUser32 mem src = 0 := by
  rw [readUser32, bpfProbeReadUser, hread]
  rfl

/-- What is copied of a string with this count: its characters and the zero, or as much as is allowed. -/
theorem copySize_toNat (count maxLength : UInt32) :
    (if maxLength < count / 2 + 1 then maxLength else count / 2 + 1).toNat =
      min (count.toNat / 2 + 1) maxLength.toNat := by
  have hsucc : (count / 2 + 1).toNat = count.toNat / 2 + 1 := by
    have := count.toNat_lt
    rw [UInt32.toNat_add, UInt32.toNat_div]
    simp
    omega
  by_cases h : maxLength < count / 2 + 1
  · rw [if_pos h]
    rw [UInt32.lt_iff_toNat_lt, hsucc] at h
    omega
  · rw [if_neg h, hsucc]
    rw [UInt32.lt_iff_toNat_lt, hsucc] at h
    omega

/-- The number of characters that are copied: all of them, or those that leave room for the zero. -/
theorem recorded_eq : recorded mem jstring maxLength =
    (mem.readStr? (min ((readUser32 mem (jstring + 8)).toNat / 2) (maxLength.toNat - 1)) (jstring + 16)).getD [] := by
  have hsize (count : Nat) : min (count + 1) maxLength.toNat - 1 = min count (maxLength.toNat - 1) := by omega
  rw [recorded, copySize_toNat, hsize]

theorem recorded_of_holds {s : String} (h : mem.HoldsString jstring s) (hs : NulFreeAscii s) :
    recorded mem jstring maxLength = utf8 (firstChars s (min s.length (maxLength.toNat - 1))) := by
  have hcount := readUser32_of_length h.fits h.count
  have hcopy : mem.readStr? (min s.length (maxLength.toNat - 1)) (jstring + 16) =
      some ((utf8 s).take (min s.length (maxLength.toNat - 1))) := by
    refine Memory.readStr?_of_read? (Memory.read?_take h.content (Nat.min_le_left ..)) fun hmem => ?_
    exact hs.nulFree (List.mem_of_mem_take hmem)
  rw [recorded_eq, hcount, Nat.mul_div_cancel_left _ (by decide), hcopy, Option.getD_some, hs.utf8_firstChars]

theorem recorded_of_fault (h : mem.StringFaults jstring maxLength) : recorded mem jstring maxLength = [] := by
  rw [recorded_eq]
  rcases h with hcount | ⟨length, hfits, hcount, i, hlength, hi, hfault, hnul⟩
  · rw [readUser32_of_fault hcount]
    simp [Memory.readStr?]
  · rw [readUser32_of_length (by omega) hcount, Nat.mul_div_cancel_left _ (by decide)]
    by_cases hlimit : i < maxLength.toNat - 1
    · rw [Memory.readStr?_eq_none (lt_min hlength hlimit) hfault hnul, Option.getD_none]
    · have hnone : min length (maxLength.toNat - 1) = 0 := by omega
      rw [hnone, Memory.readStr?, Option.getD_some]

variable {n : Nat}

theorem bytesAsStr_of_recorded (hpos : 0 < maxLength.toNat) (hle : maxLength.toNat ≤ n) {t : String}
    (h : recorded mem jstring maxLength = utf8 t) (dest : Chars n) :
    bytesAsStr (recordString mem jstring maxLength dest) = .ok t := by
  rw [bytesAsStr_eq_ok, untilNul_recordString hpos hle, h]

theorem bytesAsStr_recordString_congr (hpos : 0 < maxLength.toNat) (hle : maxLength.toNat ≤ n) (dest dest' : Chars n) :
    bytesAsStr (recordString mem jstring maxLength dest) = bytesAsStr (recordString mem jstring maxLength dest') := by
  rw [bytesAsStr, bytesAsStr, untilNul_recordString hpos hle, untilNul_recordString hpos hle]

theorem readRef_of_read {src : UInt64} {ref : UInt32} (h : mem.read? 4 src = some (Bytes.toLe 4 ref.toNat)) :
    readRef mem src = ref.toUInt64 := by
  rw [readRef, readUser32_eq h]

theorem readRef_of_fault {src : UInt64} (h : mem.read? 4 src = none) : readRef mem src = 0 := by
  rw [readRef, readUser32_of_fault h]
  rfl

end Copy

/-- The field of a record decodes to the first characters of the string, or to the empty one where the string cannot
    be read. What the slot held before makes no difference. -/
theorem recorded_string_decodes {n : Nat} {maxLength : UInt32} (hpos : 1 ≤ maxLength.toNat) (hle : maxLength.toNat ≤ n)
    (mem : Memory) :
    (∀ jstring (dest : Chars n),
      (∀ s, NulFreeAscii s → mem.HoldsString jstring s → bytesAsStr (recordString mem jstring maxLength dest) =
        .ok (firstChars s (min s.length (maxLength.toNat - 1)))) ∧
      (mem.StringFaults jstring maxLength → bytesAsStr (recordString mem jstring maxLength dest) = .ok "") ∧
      ∀ dest' : Chars n, bytesAsStr (recordString mem jstring maxLength dest) =
        bytesAsStr (recordString mem jstring maxLength dest')) ∧
    (∀ (ctx : PtRegs) spOffset (dest : Chars n),
      (∀ s, NulFreeAscii s → mem.RefersTo (ctx.sp + spOffset) s →
        bytesAsStr (recordStringArgFromSp mem ctx maxLength spOffset dest) =
          .ok (firstChars s (min s.length (maxLength.toNat - 1)))) ∧
      (∀ ref : UInt32, mem.read? 4 (ctx.sp + spOffset) = some (Bytes.toLe 4 ref.toNat) →
        mem.StringFaults ref.toUInt64 maxLength →
          bytesAsStr (recordStringArgFromSp mem ctx maxLength spOffset dest) = .ok "") ∧
      (mem.read? 4 (ctx.sp + spOffset) = none → mem.NullUnmapped →
        bytesAsStr (recordStringArgFromSp mem ctx maxLength spOffset dest) = .ok "") ∧
      ∀ dest' : Chars n, bytesAsStr (recordStringArgFromSp mem ctx maxLength spOffset dest) =
        bytesAsStr (recordStringArgFromSp mem ctx maxLength spOffset dest')) := by
  have hholds : ∀ {jstring s} (dest : Chars n), NulFreeAscii s → mem.HoldsString jstring s →
      bytesAsStr (recordString mem jstring maxLength dest) = .ok (firstChars s (min s.length (maxLength.toNat - 1))) :=
    fun dest hs h => bytesAsStr_of_recorded hpos hle (recorded_of_holds h hs) dest
  have hfaults : ∀ {jstring} (dest : Chars n), mem.StringFaults jstring maxLength →
      bytesAsStr (recordString mem jstring maxLength dest) = .ok "" :=
    fun dest h => bytesAsStr_of_recorded hpos hle (recorded_of_fault h) dest
  refine ⟨fun jstring dest => ⟨fun s => hholds dest, hfaults dest, bytesAsStr_recordString_congr hpos hle dest⟩,
    fun ctx spOffset dest => ⟨?_, ?_, ?_, bytesAsStr_recordString_congr hpos hle dest⟩⟩
  · rintro s hs ⟨ref, href, h⟩
    rw [recordStringArgFromSp, readRef_of_read href]
    exact hholds dest hs h
  · intro ref href h
    rw [recordStringArgFromSp, readRef_of_read href]
    exact hfaults dest h
  · intro href hnull
    rw [recordStringArgFromSp, readRef_of_fault href]
    exact hfaults dest (Or.inl hnull)

/-- A process with a reference at 0x1000 to a Java string at 0x1010. -/
def stringMemory (s : String) : Memory :=
  .ofBytes 0x1000 (Bytes.toLe 4 0x1010 ++ List.replicate 20 0 ++ Bytes.toLe 4 (2 * s.length) ++ List.replicate 4 0 ++
    utf8 s)

theorem holdsString_abc : (stringMemory "abc").HoldsString 0x1010 "abc" :=
  ⟨by decide +kernel, by decide +kernel, by decide +kernel⟩

/-- A copy of at most two bytes keeps one character of three; nothing is at 0x2000. -/
theorem recorded_string_decodes_abc :
    bytesAsStr (recordString (stringMemory "abc") 0x1010 2 (Chars.zeros 128)) = .ok "a" ∧
      bytesAsStr (recordString (stringMemory "abc") 0x2000 2 (Chars.zeros 128)) = .ok "" ∧
      bytesAsStr (recordStringArgFromSp (stringMemory "abc") ⟨fun _ => 0, 0xF00⟩ 2 0x100 (Chars.zeros 128)) = .ok "a" ∧
      bytesAsStr (recordStringArgFromSp (stringMemory "abc") ⟨fun _ => 0, 0xF00⟩ 2 0 (Chars.zeros 128)) = .ok "" := by
  have hplain : NulFreeAscii "abc" := by decide +kernel
  have hfirst : firstChars "abc" (min "abc".length ((2 : UInt32).toNat - 1)) = "a" := by decide +kernel
  have h := @recorded_string_decodes 128 2 (by decide) (by decide) (stringMemory "abc")
  obtain ⟨hfield, hstack⟩ := h
  refine ⟨?_, (hfield 0x2000 (Chars.zeros 128)).2.1 (Or.inl (by decide +kernel)), ?_, ?_⟩
  · rw [← hfirst]
    exact (hfield 0x1010 (Chars.zeros 128)).1 "abc" hplain holdsString_abc
  · rw [← hfirst]
    exact (hstack _ 0x100 (Chars.zeros 128)).1 "abc" hplain ⟨0x1010, by decide +kernel, holdsString_abc⟩
  · have hnull : (stringMemory "abc").NullUnmapped := by
      unfold Memory.NullUnmapped
      decide +kernel
    exact (hstack ⟨fun _ => 0, 0xF00⟩ 0 (Chars.zeros 128)).2.2.1 (by decide +kernel) hnull

end UprobeStats
