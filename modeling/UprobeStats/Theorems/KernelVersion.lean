import UprobeStats.BpfLoad.KernelUtils
import UprobeStats.Theorems.CreateMaps

/-! Ranges of kernels. A version is packed into one word so that words are ordered as versions are, and what a
    release spells out is that word; so a definition with a range is for just the releases in that range. -/

namespace UprobeStats.BpfLoad
open Text

/-! ### Words -/

/-- A version whose parts fit into a word. -/
structure Version where
  kverMajor : Nat
  kverMinor : Nat
  kverSub : Nat
  major_lt : kverMajor < 256
  minor_lt : kverMinor < 256
  sub_lt : kverSub < 65536

namespace Version

def word (v : Version) : UInt32 :=
  kver (UInt32.ofNat v.kverMajor) (UInt32.ofNat v.kverMinor) (UInt32.ofNat v.kverSub)

/-- The order of versions: the first part that differs decides. -/
def Before (u v : Version) : Prop :=
  u.kverMajor < v.kverMajor ∨ u.kverMajor = v.kverMajor ∧ (u.kverMinor < v.kverMinor ∨
    u.kverMinor = v.kverMinor ∧ u.kverSub < v.kverSub)

theorem toNat_word (v : Version) : v.word.toNat = v.kverMajor * 2 ^ 24 + v.kverMinor * 2 ^ 16 + v.kverSub := by
  obtain ⟨major, minor, sub, hmajor, hminor, hsub⟩ := v
  simp only [word, kver, UInt32.toNat_add, UInt32.toNat_shiftLeft, UInt32.toNat_ofNat', Nat.shiftLeft_eq]
  rw [show (24 : UInt32).toNat % 32 = 24 from rfl, show (16 : UInt32).toNat % 32 = 16 from rfl]
  omega

theorem eq_word {n : UInt32} {v : Version} (h : n.toNat = v.kverMajor * 2 ^ 24 + v.kverMinor * 2 ^ 16 + v.kverSub) :
    n = v.word :=
  UInt32.toNat_inj.mp (h.trans v.toNat_word.symm)

theorem word_lt_word_iff {u v : Version} : u.word < v.word ↔ u.Before v := by
  rw [UInt32.lt_iff_toNat_lt, toNat_word, toNat_word, Before]
  have := u.minor_lt
  have := u.sub_lt
  have := v.minor_lt
  have := v.sub_lt
  omega

theorem word_le_word_iff {u v : Version} : u.word ≤ v.word ↔ ¬v.Before u := by
  rw [← word_lt_word_iff, UInt32.not_lt]

end Version

/-! ### Releases -/

theorem scanUnsigned_numeral {digits rest : List UInt8} {n : Nat} (h : Numeral digits n)
    (hrest : ∀ d ∈ rest.head?, isDigitByte d = false) (hn : n < 2 ^ 64) :
    scanUnsigned (digits ++ rest) = some (UInt32.ofNat n, rest) := by
  obtain ⟨htake, hdrop⟩ := span_digits h.digit hrest
  rw [scanUnsigned, scanSign_digits h.ne_nil h.digit]
  dsimp only
  rw [htake, hdrop, h.value, if_neg h.ne_nil, if_neg (by omega)]
  rfl

/-- What a release begins with: three numbers with dots between them, or two and no dot after them. -/
inductive Spells : List UInt8 → Version → Prop
  | three {v : Version} {major minor sub rest : List UInt8} (hmajor : Numeral major v.kverMajor)
      (hminor : Numeral minor v.kverMinor) (hsub : Numeral sub v.kverSub)
      (hrest : ∀ d ∈ rest.head?, isDigitByte d = false) : Spells (major ++ 46 :: (minor ++ 46 :: (sub ++ rest))) v
  | two {v : Version} {major minor rest : List UInt8} (hmajor : Numeral major v.kverMajor)
      (hminor : Numeral minor v.kverMinor) (hsub : v.kverSub = 0)
      (hrest : ∀ d ∈ rest.head?, isDigitByte d = false ∧ d ≠ 46) : Spells (major ++ 46 :: (minor ++ rest)) v

theorem scanVersion_of_spells {text : List UInt8} {v : Version} (h : Spells text v) :
    scanVersion text = (UInt32.ofNat v.kverMajor, UInt32.ofNat v.kverMinor, UInt32.ofNat v.kverSub) := by
  have := v.major_lt
  have := v.minor_lt
  have := v.sub_lt
  have hdot (rest : List UInt8) : ∀ d ∈ (46 :: rest).head?, isDigitByte d = false := by simp; decide
  cases h with
  | three hmajor hminor hsub hrest =>
    rw [scanVersion, scanUnsigned_numeral hmajor (hdot _) (by omega)]
    simp only [scanDotUnsigned, List.head?_cons, if_pos, List.tail_cons]
    rw [scanUnsigned_numeral hminor (hdot _) (by omega)]
    simp only [List.head?_cons, if_pos, List.tail_cons]
    rw [scanUnsigned_numeral hsub hrest (by omega)]
    rfl
  | @two _ _ _ rest hmajor hminor hsub hrest =>
    rw [scanVersion, scanUnsigned_numeral hmajor (hdot _) (by omega)]
    simp only [scanDotUnsigned, List.head?_cons, if_pos, List.tail_cons]
    rw [scanUnsigned_numeral hminor (fun d hd => (hrest d hd).1) (by omega)]
    have hrest : rest.head? ≠ some 46 := fun heq => (hrest 46 heq).2 rfl
    simp only [if_neg hrest, hsub]
    rfl

theorem uncachedKernelVersion_of_spells {release kverOverride : List UInt8} {v : Version}
    (h : Spells (if kverOverride ≠ [] then kverOverride else release) v) :
    uncachedKernelVersion (some release) kverOverride = v.word := by
  rw [uncachedKernelVersion, scanVersion_of_spells h]
  rfl

/-! ### Ranges -/

section Ranges
variable {platform : Platform} {v : Version} (hplatform : platform.kernelVersion = v.word)
include hplatform

theorem inRange_map_iff {mapDef : BpfMapDef} {u w : Version} (hmin : mapDef.minKver = u.word)
    (hmax : mapDef.maxKver = w.word) : mapDef.inRange platform = true ↔ ¬v.Before u ∧ v.Before w := by
  rw [BpfMapDef.inRange, decide_eq_true_iff, hplatform, hmin, hmax, Version.word_le_word_iff, Version.word_lt_word_iff]

theorem inRange_prog_iff {progDef : BpfProgDef} {u w : Version} (hmin : progDef.minKver = u.word)
    (hmax : progDef.maxKver = w.word) : progDef.inRange platform = true ↔ ¬v.Before u ∧ v.Before w := by
  rw [BpfProgDef.inRange, decide_eq_true_iff, hplatform, hmin, hmax, Version.word_le_word_iff,
    Version.word_lt_word_iff]

theorem mapType_eq_hash_iff {mapDef : BpfMapDef} (htype : mapDef.type = bpfMapTypeDevmapHash) :
    mapType platform mapDef = bpfMapTypeHash ↔ v.kverMajor < 5 ∨ v.kverMajor = 5 ∧ v.kverMinor < 4 := by
  let fiveFour : Version := ⟨5, 4, 0, by decide, by decide, by decide⟩
  have hbefore : platform.kernelVersion < 0x05040000 ↔ v.Before fiveFour := by
    have hword : 0x05040000 = fiveFour.word := Version.eq_word (by decide)
    rw [hplatform, hword, Version.word_lt_word_iff]
  have hne : bpfMapTypeDevmapHash ≠ bpfMapTypeHash := by decide
  rw [mapType, htype]
  constructor
  · intro h
    split at h
    · rename_i hold
      have hold := hbefore.mp hold.2
      simpa [Version.Before, fiveFour] using hold
    · exact absurd h hne
  · intro h
    have hold : v.Before fiveFour := by simpa [Version.Before, fiveFour] using h
    rw [if_pos ⟨rfl, hbefore.mpr hold⟩]

end Ranges

/-- A map or a program with a range of kernels is for the releases that spell a version not before the least and
    before the greatest of the range, and for no others; and a hash of devices becomes a plain hash on the releases
    before 5.4. -/
theorem range_selects_releases {platform : Platform} {release kverOverride : List UInt8} {v : Version}
    (hspells : Spells (if kverOverride ≠ [] then kverOverride else release) v)
    (hplatform : platform.kernelVersion = uncachedKernelVersion (some release) kverOverride) (u w : Version) :
    (∀ mapDef : BpfMapDef, mapDef.minKver = u.word → mapDef.maxKver = w.word →
        (mapDef.inRange platform = true ↔ ¬v.Before u ∧ v.Before w)) ∧
      (∀ progDef : BpfProgDef, progDef.minKver = u.word → progDef.maxKver = w.word →
        (progDef.inRange platform = true ↔ ¬v.Before u ∧ v.Before w)) ∧
      ∀ mapDef : BpfMapDef, mapDef.type = bpfMapTypeDevmapHash →
        (mapType platform mapDef = bpfMapTypeHash ↔ v.kverMajor < 5 ∨ v.kverMajor = 5 ∧ v.kverMinor < 4) := by
  rw [uncachedKernelVersion_of_spells hspells] at hplatform
  exact ⟨fun _ hmin hmax => inRange_map_iff hplatform hmin hmax, fun _ hmin hmax => inRange_prog_iff hplatform hmin hmax,
    fun _ htype => mapType_eq_hash_iff hplatform htype⟩

/-- `6.1.75-android14` -/
def androidRelease : List UInt8 := [54, 46, 49, 46, 55, 53, 45, 97, 110, 100, 114, 111, 105, 100, 49, 52]

/-- A program from 5.8 on. -/
def progFromFiveEight : BpfProgDef where
  uid := 0
  gid := 0
  minKver := 0x05080000
  maxKver := 0xFFFFFFFF
  optional := false

theorem range_selects_releases_of_android : progFromFiveEight.inRange
    { quietPlatform with kernelVersion := uncachedKernelVersion (some androidRelease) [] } = true := by
  have hspells : Spells (if ([] : List UInt8) ≠ [] then [] else androidRelease)
      ⟨6, 1, 75, by decide, by decide, by decide⟩ :=
    @Spells.three _ [54] [49] [55, 53] [45, 97, 110, 100, 114, 111, 105, 100, 49, 52]
      ⟨by simp, List.all_eq_true.mp rfl, rfl⟩ ⟨by simp, List.all_eq_true.mp rfl, rfl⟩
      ⟨by simp, List.all_eq_true.mp rfl, rfl⟩ (by simp [isDigitByte])
  refine ((range_selects_releases hspells rfl ⟨5, 8, 0, by decide, by decide, by decide⟩
    ⟨255, 255, 65535, by decide, by decide, by decide⟩).2.1 progFromFiveEight (Version.eq_word (by decide))
    (Version.eq_word (by decide))).mpr ⟨?_, ?_⟩
  · simp [Version.Before]
  · simp [Version.Before]

end UprobeStats.BpfLoad
