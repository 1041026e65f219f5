import Mathlib.Data.List.Basic
import Mathlib.Data.List.Infix
import Mathlib.Tactic.SplitIfs

/-! Strings and their bytes: UTF-8 encoding and decoding, and C strings, which end at their first zero. -/

namespace Text

def utf8 (s : String) : List UInt8 := s.toByteArray.data.toList

/-- The string that bytes encode, when they are valid UTF-8. -/
def fromUtf8? (bs : List UInt8) : Option String := String.fromUTF8? ⟨bs.toArray⟩

@[simp] theorem utf8_inj {s t : String} : utf8 s = utf8 t ↔ s = t := by
  constructor
  · intro h
    apply String.toByteArray_inj.mp
    cases hs : s.toByteArray
    cases ht : t.toByteArray
    simp only [utf8, hs, ht] at h
    rw [Array.toList_inj.mp h]
  · rintro rfl
    rfl

theorem fromUtf8?_eq_some {bs : List UInt8} {s : String} : fromUtf8? bs = some s ↔ utf8 s = bs := by
  unfold fromUtf8? String.fromUTF8?
  constructor
  · intro h
    split at h
    · obtain rfl := Option.some.inj h
      simp [utf8, String.fromUTF8]
    · cases h
  · rintro rfl
    have hvalid : (⟨(utf8 s).toArray⟩ : ByteArray) = s.toByteArray := by simp [utf8]
    rw [hvalid, dif_pos s.isValidUTF8]
    rfl

@[simp] theorem fromUtf8?_utf8 (s : String) : fromUtf8? (utf8 s) = some s := fromUtf8?_eq_some.mpr rfl

/-! ### C strings -/

def untilNul : List UInt8 → Option (List UInt8)
  | [] => none
  | b :: bs => if b = 0 then some [] else (untilNul bs).map (b :: ·)

theorem untilNul_append_zero {bs rest : List UInt8} (h : 0 ∉ bs) : untilNul (bs ++ 0 :: rest) = some bs := by
  induction bs with
  | nil => simp [untilNul]
  | cons b bs ih =>
    rw [List.mem_cons, not_or] at h
    simp [untilNul, Ne.symm h.1, ih h.2]

theorem untilNul_eq_some {bs front : List UInt8} :
    untilNul bs = some front ↔ 0 ∉ front ∧ ∃ rest, bs = front ++ 0 :: rest := by
  constructor
  · intro h
    induction bs generalizing front with
    | nil => cases h
    | cons b bs ih =>
      rw [untilNul] at h
      split at h
      · rename_i hb
        obtain rfl := Option.some.inj h
        exact ⟨by simp, bs, by rw [hb]; rfl⟩
      · rename_i hb
        obtain ⟨front', h', rfl⟩ := Option.map_eq_some_iff.mp h
        obtain ⟨hnot, rest, rfl⟩ := ih h'
        refine ⟨?_, rest, rfl⟩
        rw [List.mem_cons, not_or]
        exact ⟨Ne.symm hb, hnot⟩
  · rintro ⟨hnot, rest, rfl⟩
    exact untilNul_append_zero hnot

theorem utf8_ofList (cs : List Char) : utf8 (String.ofList cs) = cs.flatMap String.utf8EncodeChar := by
  simp [utf8, String.ofList, List.utf8Encode]

/-- The characters of ASCII are their own encoding. -/
theorem utf8_of_ascii {s : String} (h : ∀ c ∈ s.toList, c.toNat < 128) :
    utf8 s = s.toList.map fun c => UInt8.ofNat c.toNat := by
  have hchars : ∀ cs : List Char, (∀ c ∈ cs, c.toNat < 128) →
      cs.flatMap String.utf8EncodeChar = cs.map fun c => UInt8.ofNat c.toNat := by
    intro cs hcs
    induction cs with
    | nil => rfl
    | cons c cs ih =>
      obtain ⟨hc, hcs⟩ := List.forall_mem_cons.mp hcs
      have hcode : String.utf8EncodeChar c = [UInt8.ofNat c.toNat] := if_pos (Nat.le_of_lt_succ hc)
      rw [List.flatMap_cons, hcode, ih hcs, List.map_cons, List.singleton_append]
  rw [← hchars _ h, ← utf8_ofList, String.ofList_toList]

/-- The encoding of a character has a byte of ASCII only when the character is that one. -/
theorem toNat_of_mem_utf8EncodeChar {b : UInt8} {c : Char} (hb : b < 128) (h : b ∈ String.utf8EncodeChar c) :
    c.toNat = b.toNat := by
  have hsmall : b.toNat < 128 := UInt8.lt_iff_toNat_lt.mp hb
  have hlead : ∀ n : Nat, n < 256 → 128 ≤ n → b ≠ UInt8.ofNat n := by
    rintro n hn hbig rfl
    rw [UInt8.toNat_ofNat', Nat.mod_eq_of_lt hn] at hsmall
    omega
  unfold String.utf8EncodeChar at h
  dsimp only at h
  split at h
  · rename_i hone
    rw [List.mem_singleton] at h
    rw [h, UInt8.toNat_ofNat', Nat.mod_eq_of_lt (by omega)]
    rfl
  · split at h
    · simp only [List.mem_cons, List.not_mem_nil, or_false] at h
      rcases h with h | h
      all_goals exact absurd h (hlead _ (by omega) (by omega))
    · split at h
      · simp only [List.mem_cons, List.not_mem_nil, or_false] at h
        rcases h with h | h | h
        all_goals exact absurd h (hlead _ (by omega) (by omega))
      · simp only [List.mem_cons, List.not_mem_nil, or_false] at h
        rcases h with h | h | h | h
        all_goals exact absurd h (hlead _ (by omega) (by omega))

theorem zero_not_mem_utf8EncodeChar {c : Char} (h : c ≠ '\x00') : 0 ∉ String.utf8EncodeChar c := by
  intro hmem
  exact h (Char.ext (UInt32.toNat_inj.mp (toNat_of_mem_utf8EncodeChar (by decide) hmem)))

theorem mem_utf8_ofList {b : UInt8} {cs : List Char} (hb : b < 128) (h : b ∈ utf8 (String.ofList cs)) :
    ∃ c ∈ cs, c.toNat = b.toNat := by
  rw [utf8_ofList, List.mem_flatMap] at h
  obtain ⟨c, hc, hmem⟩ := h
  exact ⟨c, hc, toNat_of_mem_utf8EncodeChar hb hmem⟩

theorem utf8_ofList_append (cs ds : List Char) :
    utf8 (String.ofList (cs ++ ds)) = utf8 (String.ofList cs) ++ utf8 (String.ofList ds) := by
  rw [utf8_ofList, utf8_ofList, utf8_ofList, List.flatMap_append]

/-- What a string holds before a zero byte is the encoding of a string. -/
theorem exists_utf8_of_append_zero {s : String} {front r : List UInt8} (h : utf8 s = front ++ 0 :: r)
    (h0 : 0 ∉ front) : ∃ t, utf8 t = front := by
  have hchars : ∀ {cs : List Char} {front : List UInt8}, cs.flatMap String.utf8EncodeChar = front ++ 0 :: r →
      0 ∉ front → ∃ cs' : List Char, cs'.flatMap String.utf8EncodeChar = front := by
    intro cs
    induction cs with
    | nil => intro front h; simp at h
    | cons c cs ih =>
      intro front h h0
      rw [List.flatMap_cons] at h
      by_cases hc : c = '\x00'
      · subst hc
        cases front with
        | nil => exact ⟨[], rfl⟩
        | cons b front =>
          obtain ⟨hb, -⟩ := List.cons.inj h
          exact absurd (hb ▸ List.mem_cons_self ..) h0
      · rcases List.append_eq_append_iff.mp h with ⟨as, rfl, htail⟩ | ⟨bs, hcode, hrest⟩
        · obtain ⟨cs', hcs'⟩ := ih htail fun hmem => h0 (List.mem_append_right _ hmem)
          exact ⟨c :: cs', by rw [List.flatMap_cons, hcs']⟩
        · cases bs with
          | nil => exact ⟨[c], by simpa using hcode⟩
          | cons b bs =>
            obtain ⟨rfl, -⟩ := List.cons.inj hrest
            exact absurd (hcode ▸ by simp) (zero_not_mem_utf8EncodeChar hc)
  rw [← String.ofList_toList (s := s), utf8_ofList] at h
  obtain ⟨cs', hcs'⟩ := hchars h h0
  exact ⟨String.ofList cs', by rw [utf8_ofList, hcs']⟩

/-! ### Separators -/

/-- Two texts with a separator that may also be inside of their parts: where they agree, the parts do, or one text is
    split at a later separator than the other. -/
theorem append_cons_inj_iff {α : Type} {c : α} {xs ys xs' ys' : List α} : xs ++ c :: ys = xs' ++ c :: ys' ↔
    (xs = xs' ∧ ys = ys') ∨ (∃ t, xs' = xs ++ c :: t ∧ ys = t ++ c :: ys') ∨
      ∃ t, xs = xs' ++ c :: t ∧ ys' = t ++ c :: ys := by
  constructor
  · intro h
    rcases List.append_eq_append_iff.mp h with ⟨t, rfl, htail⟩ | ⟨t, rfl, htail⟩
    · rcases List.cons_eq_append_iff.mp htail with ⟨rfl, hsame⟩ | ⟨t', rfl, hys⟩
      · exact .inl ⟨(List.append_nil _).symm, (List.cons.inj hsame).2.symm⟩
      · exact .inr (.inl ⟨t', rfl, hys⟩)
    · rcases List.cons_eq_append_iff.mp htail with ⟨rfl, hsame⟩ | ⟨t', rfl, hys⟩
      · exact .inl ⟨List.append_nil _, (List.cons.inj hsame).2⟩
      · exact .inr (.inr ⟨t', rfl, hys⟩)
  · rintro (⟨rfl, rfl⟩ | ⟨t, rfl, rfl⟩ | ⟨t, rfl, rfl⟩)
    · rfl
    · rw [List.append_assoc, List.cons_append]
    · rw [List.append_assoc, List.cons_append]

/-! ### Searching -/

def startsWith (s front : String) : Bool := front.toList.isPrefixOf s.toList

def contains (s part : String) : Bool := decide (part.toList <:+: s.toList)

theorem startsWith_iff {s front : String} : startsWith s front = true ↔ ∃ rest, s.toList = front.toList ++ rest := by
  rw [startsWith, List.isPrefixOf_iff_prefix]
  exact exists_congr fun rest => eq_comm

/-! ### Parsing -/

def digit? (c : Char) : Option Nat := if c.isDigit then some (c.toNat - '0'.toNat) else none

def digits? (cs : List Char) : Option Nat :=
  if cs = [] then none else cs.foldlM (fun n c => (digit? c).map (10 * n + ·)) 0

/-- `parse` of a signed integer. -/
def parseInt? (s : String) : Option Int :=
  match s.toList with
  | '-' :: cs => (digits? cs).map fun n => -n
  | '+' :: cs => (digits? cs).map Int.ofNat
  | cs => (digits? cs).map Int.ofNat

/-! ### Lossy decoding -/

/-- The bytes of the character at the start of a text, or of the invalid sequence there. -/
def chunk (bs : List UInt8) : Nat × Bool :=
  let byte (i : Nat) : UInt8 := bs.getD i 0
  let inRange (b lo hi : UInt8) : Bool := lo ≤ b && b ≤ hi
  let continues (i : Nat) : Bool := inRange (byte i) 0x80 0xBF
  let first := byte 0
  if first < 0x80 then (1, true)
  else if inRange first 0xC2 0xDF then if continues 1 then (2, true) else (1, false)
  else if inRange first 0xE0 0xEF then
    let second :=
      if first = 0xE0 then inRange (byte 1) 0xA0 0xBF
      else if first = 0xED then inRange (byte 1) 0x80 0x9F
      else continues 1
    if !second then (1, false) else if continues 2 then (3, true) else (2, false)
  else if inRange first 0xF0 0xF4 then
    let second :=
      if first = 0xF0 then inRange (byte 1) 0x90 0xBF
      else if first = 0xF4 then inRange (byte 1) 0x80 0x8F
      else continues 1
    if !second then (1, false)
    else if !continues 2 then (2, false)
    else if continues 3 then (4, true) else (3, false)
  else (1, false)

/-- `from_utf8_lossy` as UTF-8 bytes: each invalid sequence is replaced by U+FFFD. -/
def lossy (bs : List UInt8) : List UInt8 := go bs.length bs
where
  go : Nat → List UInt8 → List UInt8
    | 0, _ => []
    | fuel + 1, bs =>
      if bs = [] then []
      else
        let (size, valid) := chunk bs
        (if valid then bs.take size else [0xEF, 0xBF, 0xBD]) ++ go fuel (bs.drop size)

theorem chunk_pos (bs : List UInt8) : 0 < (chunk bs).1 := by
  simp only [chunk]
  split_ifs <;> simp

theorem chunk_cons_of_ascii {b : UInt8} (hb : b < 128) (bs : List UInt8) : chunk (b :: bs) = (1, true) := if_pos hb

/-- What an invalid sequence is replaced by is not ASCII, as its own bytes are not. -/
theorem exists_go_cons_of_not_ascii {b : UInt8} (hb : ¬b < 128) (fuel : Nat) (bs : List UInt8) :
    ∃ c rest, lossy.go (fuel + 1) (b :: bs) = c :: rest ∧ ¬c < 128 := by
  obtain ⟨n, hn⟩ := Nat.exists_eq_succ_of_ne_zero (chunk_pos (b :: bs)).ne'
  rw [lossy.go, if_neg (List.cons_ne_nil b bs)]
  cases hvalid : (chunk (b :: bs)).2 with
  | true =>
    refine ⟨b, bs.take n ++ lossy.go fuel ((b :: bs).drop (n + 1)), ?_, hb⟩
    simp [hvalid, hn]
  | false =>
    refine ⟨0xEF, 0xBF :: 0xBD :: lossy.go fuel ((b :: bs).drop (n + 1)), ?_, by decide⟩
    simp [hvalid, hn]

theorem isPrefix_lossy_iff {front : List UInt8} (hfront : ∀ b ∈ front, b < 128) (bs : List UInt8) :
    front <+: lossy bs ↔ front <+: bs := by
  have hgo : ∀ (fuel : Nat) (front bs : List UInt8), bs.length ≤ fuel → (∀ b ∈ front, b < 128) →
      (front <+: lossy.go fuel bs ↔ front <+: bs) := by
    intro fuel
    induction fuel with
    | zero =>
      intro front bs hlength _
      rw [List.eq_nil_of_length_eq_zero (Nat.le_zero.mp hlength), lossy.go]
    | succ fuel ih =>
      intro front bs hlength hfront
      rcases front with _ | ⟨a, front⟩
      · simp
      obtain ⟨ha, hfront⟩ := List.forall_mem_cons.mp hfront
      rcases bs with _ | ⟨b, bs⟩
      · simp [lossy.go]
      by_cases hb : b < 128
      · rw [lossy.go, if_neg (List.cons_ne_nil b bs), chunk_cons_of_ascii hb]
        have := ih front bs (Nat.le_of_succ_le_succ hlength) hfront
        simpa using fun _ => this
      · obtain ⟨c, rest, hgo, hc⟩ := exists_go_cons_of_not_ascii hb fuel bs
        rw [hgo, List.cons_prefix_cons, List.cons_prefix_cons]
        exact ⟨fun h => absurd (h.1 ▸ ha) hc, fun h => absurd (h.1 ▸ ha) hb⟩
  exact hgo bs.length front bs (Nat.le_refl _) hfront

/-! ### Numerals -/

def isSpaceByte (b : UInt8) : Bool := b = 32 || (9 ≤ b && b ≤ 13)
def isDigitByte (b : UInt8) : Bool := 48 ≤ b && b ≤ 57

def decimal (digits : List UInt8) : Nat := digits.foldl (fun n d => 10 * n + (d.toNat - 48)) 0

/-- Whether a number has the sign of a negative one, and what is behind its sign. -/
def scanSign : List UInt8 → Bool × List UInt8
  | 45 :: text => (true, text)
  | 43 :: text => (false, text)
  | text => (false, text)

/-- A decimal with this value. -/
structure Numeral (digits : List UInt8) (n : Nat) : Prop where
  ne_nil : digits ≠ []
  digit : ∀ d ∈ digits, isDigitByte d = true
  value : decimal digits = n

section Numerals
variable {digits rest : List UInt8} {n : Nat}

theorem span_digits (hdigit : ∀ d ∈ digits, isDigitByte d = true) (hrest : ∀ d ∈ rest.head?, isDigitByte d = false) :
    (digits ++ rest).takeWhile isDigitByte = digits ∧ (digits ++ rest).dropWhile isDigitByte = rest := by
  rw [List.takeWhile_append_of_pos hdigit, List.dropWhile_append_of_pos hdigit]
  cases rest with
  | nil => simp
  | cons d rest => simp [hrest d (by simp)]

/-- A digit is no blank and no sign. -/
theorem scanSign_digits (hne : digits ≠ []) (hdigit : ∀ d ∈ digits, isDigitByte d = true) :
    scanSign ((digits ++ rest).dropWhile isSpaceByte) = (false, digits ++ rest) := by
  obtain ⟨d, ds, rfl⟩ := List.exists_cons_of_ne_nil hne
  have hd : 48 ≤ d ∧ d ≤ 57 := by simpa [isDigitByte] using hdigit d (List.mem_cons_self ..)
  have hspace : isSpaceByte d = false := by
    simp only [isSpaceByte, Bool.or_eq_false_iff, decide_eq_false_iff_not, Bool.and_eq_false_iff]
    refine ⟨fun heq => ?_, .inr fun hle => ?_⟩
    · subst heq
      exact absurd hd.1 (by decide)
    · exact absurd (UInt8.le_trans hd.1 hle) (by decide)
  rw [List.cons_append, List.dropWhile_cons_of_neg (by simp [hspace]), scanSign]
  · rintro text heq
    obtain rfl := (List.cons.inj heq).1
    exact absurd hd.1 (by decide)
  · rintro text heq
    obtain rfl := (List.cons.inj heq).1
    exact absurd hd.1 (by decide)

end Numerals

end Text
