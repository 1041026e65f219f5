import Mathlib.Data.List.TakeWhile
import UprobeStats.Cxx.ConfigResolver

/-! How the two programs cut the output of `oatdump` into lines and read an offset. A line of the one is a line of
    the other, up to the carriage return that only Rust takes away, as long as it holds no zero. -/

namespace UprobeStats
open Text

/-! ### Lines in Rust -/

/-- A line ends in `\n` or `\r\n`. -/
def stripCr (cs : List Char) : List Char := if cs.getLast? = some '\r' then cs.dropLast else cs

theorem stripCr_cases (cs : List Char) : cs = stripCr cs ∨ cs = stripCr cs ++ ['\r'] := by
  rw [stripCr]
  split
  · rename_i hlast
    obtain ⟨front, rfl⟩ := List.getLast?_eq_some_iff.mp hlast
    exact Or.inr (by rw [List.dropLast_concat])
  · exact Or.inl rfl

theorem lines_newline {l rest : List Char} (h : '\n' ∉ l) :
    lines (String.ofList (l ++ '\n' :: rest)) = String.ofList (stripCr l) :: lines (String.ofList rest) := by
  obtain ⟨part, parts, hparts⟩ := List.exists_cons_of_ne_nil (List.splitOn_ne_nil '\n' rest)
  have hlast : (l :: part :: parts).getLastD [] = (part :: parts).getLastD [] := by simp [List.getLastD_eq_getLast?]
  simp only [lines, String.toList_ofList, List.splitOn_append_cons_self_of_not_mem h, hparts]
  rw [hlast, List.dropLast_cons_cons, List.map_cons, List.cons_append, List.map_cons]
  rfl

theorem lines_last {l : List Char} (h : '\n' ∉ l) :
    lines (String.ofList l) = if l = [] then [] else [String.ofList l] := by
  simp only [lines, String.toList_ofList, List.splitOn_eq_singleton h, List.dropLast_singleton, List.map_nil,
    List.nil_append]
  split <;> rename_i hl
  · rw [if_pos (by simpa using hl)]
    rfl
  · rw [if_neg (by simpa using hl)]
    rfl

/-- What holds of the last line and of a line before others holds of a text. -/
theorem line_induction {P : List Char → Prop} (last : ∀ l, '\n' ∉ l → P l)
    (newline : ∀ l rest, '\n' ∉ l → P rest → P (l ++ '\n' :: rest)) (cs : List Char) : P cs := by
  induction hlength : cs.length using Nat.strongRecOn generalizing cs with
  | ind n ih =>
    by_cases hmem : '\n' ∈ cs
    · obtain ⟨l, rest, rfl, hl⟩ := List.eq_append_cons_of_mem hmem
      exact newline l rest hl (ih rest.length (by simp at hlength; omega) rest rfl)
    · exact last cs hmem

/-! ### Lines in C++ -/

namespace Cxx

theorem fgets_newline : ∀ {room : Nat} {l rest : List UInt8}, 10 ∉ l → fgets room (l ++ 10 :: rest) =
    if l.length < room then (l ++ [10], rest) else (l.take room, l.drop room ++ 10 :: rest)
  | 0, l, rest, _ => by simp [fgets]
  | room + 1, [], rest, _ => by simp [fgets]
  | room + 1, b :: l, rest, h => by
    rw [List.mem_cons, not_or] at h
    rw [List.cons_append, fgets, if_neg (Ne.symm h.1), fgets_newline h.2, List.length_cons]
    by_cases hlt : l.length < room
    · rw [if_pos hlt, if_pos (Nat.succ_lt_succ hlt)]
      rfl
    · rw [if_neg hlt, if_neg fun hlt' => hlt (Nat.lt_of_succ_lt_succ hlt')]
      rfl

theorem fgets_last : ∀ {room : Nat} {l : List UInt8}, 10 ∉ l → fgets room l = (l.take room, l.drop room)
  | 0, l, _ => by simp [fgets]
  | room + 1, [], _ => by simp [fgets]
  | room + 1, b :: l, h => by
    rw [List.mem_cons, not_or] at h
    rw [fgets, if_neg (Ne.symm h.1), fgets_last h.2]
    rfl

theorem takeWhile_nulFree {bs : List UInt8} (h : 0 ∉ bs) : bs.takeWhile (· ≠ 0) = bs := by
  have hall : ∀ b ∈ bs, decide (b ≠ 0) = true := fun b hb => decide_eq_true fun hzero => h (hzero ▸ hb)
  exact List.takeWhile_eq_self_iff.mpr hall

/-- A line without a zero comes through the buffer as it is. -/
theorem readPipe_newline : ∀ {fuel : Nat} {l rest : List UInt8}, 0 ∉ l → 10 ∉ l →
    (l ++ 10 :: rest).length ≤ fuel → ∃ fuel', rest.length ≤ fuel' ∧ readPipe fuel (l ++ 10 :: rest) = l ++ 10 :: readPipe fuel' rest
  | 0, l, rest, _, _, hfuel => by simp at hfuel
  | fuel + 1, l, rest, h0, h10, hfuel => by
    have hlength : l.length + rest.length ≤ fuel := by
      rw [List.length_append, List.length_cons] at hfuel
      omega
    rw [readPipe, if_neg (by simp), fgets_newline h10]
    by_cases hshort : l.length < 255
    · have hzero : 0 ∉ l ++ [10] := by simp [h0]
      rw [if_pos hshort]
      exact ⟨fuel, by omega, by rw [takeWhile_nulFree hzero, List.append_assoc]; rfl⟩
    · rw [if_neg hshort]
      have hdrop : (l.drop 255 ++ 10 :: rest).length ≤ fuel := by
        rw [List.length_append, List.length_cons, List.length_drop]
        omega
      obtain ⟨fuel', hfuel', hrest⟩ := readPipe_newline (fun hmem => h0 (List.mem_of_mem_drop hmem))
        (fun hmem => h10 (List.mem_of_mem_drop hmem)) hdrop
      refine ⟨fuel', hfuel', ?_⟩
      dsimp only
      rw [takeWhile_nulFree fun hmem => h0 (List.mem_of_mem_take hmem), hrest, ← List.append_assoc, List.take_append_drop]

theorem readPipe_last : ∀ {fuel : Nat} {l : List UInt8}, 0 ∉ l → 10 ∉ l → l.length ≤ fuel → readPipe fuel l = l
  | 0, l, _, _, hfuel => by
    rw [List.length_eq_zero_iff.mp (Nat.le_zero.mp hfuel), readPipe]
  | fuel + 1, l, h0, h10, hfuel => by
    rw [readPipe, fgets_last h10]
    split
    · rename_i hl
      exact hl.symm
    · rename_i hl
      have hpos := List.length_pos_iff.mpr hl
      have hdrop : (l.drop 255).length ≤ fuel := by
        rw [List.length_drop]
        omega
      dsimp only
      rw [takeWhile_nulFree fun hmem => h0 (List.mem_of_mem_take hmem),
        readPipe_last (fun hmem => h0 (List.mem_of_mem_drop hmem)) (fun hmem => h10 (List.mem_of_mem_drop hmem)) hdrop,
        List.take_append_drop]

theorem getlines_newline {l rest : List UInt8} (h : 10 ∉ l) : getlines (l ++ 10 :: rest) = l :: getlines rest := by
  obtain ⟨part, parts, hparts⟩ := List.exists_cons_of_ne_nil (List.splitOn_ne_nil 10 rest)
  simp only [getlines, List.splitOn_append_cons_self_of_not_mem h, hparts, List.getLast?_cons_cons, List.dropLast_cons_cons]
  split <;> rfl

theorem getlines_last {l : List UInt8} (h : 10 ∉ l) : getlines l = if l = [] then [] else [l] := by
  simp only [getlines, List.splitOn_eq_singleton h, List.getLast?_singleton, List.dropLast_singleton, Option.some.injEq]

/-- The bytes of a text have the byte of an ASCII character only where the text has it. -/
theorem not_mem_utf8 {b : UInt8} {c : Char} {cs : List Char} (hb : b < 128) (hc : c.toNat = b.toNat) (h : c ∉ cs) :
    b ∉ utf8 (String.ofList cs) := by
  intro hmem
  obtain ⟨d, hd, hcode⟩ := mem_utf8_ofList hb hmem
  exact h (Char.ext (UInt32.toNat_inj.mp (hcode.trans hc.symm)) ▸ hd)

section Text
variable {l : List Char} (hnul : '\x00' ∉ l) (hnewline : '\n' ∉ l)
include hnul hnewline

theorem textLines_newline {rest : List Char} {fuel : Nat}
    (hfuel : (utf8 (String.ofList (l ++ '\n' :: rest))).length ≤ fuel) :
    ∃ fuel', (utf8 (String.ofList rest)).length ≤ fuel' ∧
      getlines (readPipe fuel (utf8 (String.ofList (l ++ '\n' :: rest)))) =
        utf8 (String.ofList l) :: getlines (readPipe fuel' (utf8 (String.ofList rest))) := by
  have h0 : 0 ∉ utf8 (String.ofList l) := not_mem_utf8 (by decide) (by decide) hnul
  have h10 : 10 ∉ utf8 (String.ofList l) := not_mem_utf8 (by decide) (by decide) hnewline
  have hsplit : utf8 (String.ofList (l ++ '\n' :: rest)) = utf8 (String.ofList l) ++ 10 :: utf8 (String.ofList rest) := by
    rw [utf8_ofList_append, ← List.singleton_append, utf8_ofList_append]
    rfl
  rw [hsplit] at hfuel ⊢
  obtain ⟨fuel', hfuel', hpipe⟩ := readPipe_newline h0 h10 hfuel
  exact ⟨fuel', hfuel', by rw [hpipe, getlines_newline h10]⟩

theorem textLines_last {fuel : Nat} (hfuel : (utf8 (String.ofList l)).length ≤ fuel) :
    getlines (readPipe fuel (utf8 (String.ofList l))) = if l = [] then [] else [utf8 (String.ofList l)] := by
  have h0 : 0 ∉ utf8 (String.ofList l) := not_mem_utf8 (by decide) (by decide) hnul
  have h10 : 10 ∉ utf8 (String.ofList l) := not_mem_utf8 (by decide) (by decide) hnewline
  have hempty : utf8 (String.ofList l) = [] ↔ l = [] := by
    rw [show [] = utf8 (String.ofList []) from rfl, utf8_inj, String.ofList_inj]
  rw [readPipe_last h0 h10 hfuel, getlines_last h10]
  exact if_congr hempty rfl rfl

end Text
end Cxx

/-! ### The offset -/

/-- A hex number of at most 31 bits other than zero, with or without its mark. -/
def HexOffset (s : String) (n : Nat) : Prop :=
  ∃ digits, (s.toList = digits ∨ s.toList = '0' :: 'x' :: digits) ∧ hexDigits? digits = some n ∧ 0 < n ∧ n < 2 ^ 31

theorem hexDigit?_range {c : Char} (h : (hexDigit? c).isSome) : 48 ≤ c.toNat ∧ c.toNat ≠ 120 ∧ c.toNat ≠ 88 := by
  rw [hexDigit?] at h
  split at h
  · rename_i hdigit
    rw [Char.isDigit, Bool.and_eq_true, decide_eq_true_eq, decide_eq_true_eq] at hdigit
    have hlow := UInt32.le_iff_toNat_le.mp hdigit.1
    have hhigh := UInt32.le_iff_toNat_le.mp hdigit.2
    have hval : c.toNat = c.val.toNat := rfl
    simp at hlow hhigh
    omega
  · split at h
    · rename_i hlower
      have hlow : 'a'.toNat ≤ c.toNat := hlower.1
      have hhigh : c.toNat ≤ 'f'.toNat := hlower.2
      simp at hlow hhigh
      omega
    · split at h
      · rename_i hupper
        have hlow : 'A'.toNat ≤ c.toNat := hupper.1
        have hhigh : c.toNat ≤ 'F'.toNat := hupper.2
        simp at hlow hhigh
        omega
      · cases h

theorem hexDigit?_of_foldlM : ∀ {cs : List Char} {a n : Nat},
    cs.foldlM (fun n c => (hexDigit? c).map (16 * n + ·)) a = some n → ∀ c ∈ cs, (hexDigit? c).isSome
  | [], _, _, _, c, hc => by cases hc
  | d :: cs, a, n, h, c, hc => by
    rw [List.foldlM_cons] at h
    obtain ⟨b, hb, h⟩ := Option.bind_eq_some_iff.mp h
    obtain ⟨digit, hdigit, -⟩ := Option.map_eq_some_iff.mp hb
    rcases List.mem_cons.mp hc with rfl | hc
    · exact Option.isSome_iff_exists.mpr ⟨digit, hdigit⟩
    · exact hexDigit?_of_foldlM h c hc

section Offset
variable {digits : List Char} {n : Nat}

theorem hexDigits?_eq_some (h : hexDigits? digits = some n) : digits ≠ [] ∧ ∀ c ∈ digits, (hexDigit? c).isSome := by
  rw [hexDigits?] at h
  split at h
  · cases h
  · rename_i hne
    exact ⟨hne, hexDigit?_of_foldlM h⟩

theorem trimStart0x_digits (h : ∀ c ∈ digits, (hexDigit? c).isSome) : trimStart0x digits = digits := by
  unfold trimStart0x
  split
  · have := (hexDigit?_range (h 'x' (by simp))).2.1
    exact absurd rfl this
  · rfl

theorem fromStrRadix16_digits (hdigits : hexDigits? digits = some n) (hlt : n < 2 ^ 31) :
    fromStrRadix16 digits = some (Int32.ofInt n) := by
  obtain ⟨-, hall⟩ := hexDigits?_eq_some hdigits
  unfold fromStrRadix16
  split
  · exact absurd (hexDigit?_range (hall '-' (by simp))).1 (by decide)
  · exact absurd (hexDigit?_range (hall '+' (by simp))).1 (by decide)
  · have hfits : Rust.tryI32 (Int.ofNat n) = .ok (Int32.ofInt n) := if_pos (by rw [Int.ofNat_eq_natCast]; omega)
    rw [hdigits, Option.map_some, Option.bind_some, hfits]
    rfl

theorem dropWhile_space {cs : List Char} {c : Char} (hc : 48 ≤ c.toNat) :
    (c :: cs).dropWhile (fun c => c = ' ' || ('\t' ≤ c && c ≤ '\r')) = c :: cs := by
  refine List.dropWhile_cons_of_neg ?_
  have hspace : c ≠ ' ' := by
    rintro rfl
    exact absurd hc (by decide)
  have hcontrol : ¬c ≤ '\r' := fun hle => absurd (le_trans hc (show c.toNat ≤ '\r'.toNat from hle)) (by decide)
  simp [hspace, hcontrol]

theorem readHex_digits (hdigits : hexDigits? digits = some n) (hlt : n < 2 ^ 31) {s : String} {unset : Int32}
    (hs : s.toList = digits ∨ s.toList = '0' :: 'x' :: digits) : Cxx.readHex unset s = Int32.ofInt n := by
  obtain ⟨hne, hall⟩ := hexDigits?_eq_some hdigits
  have htake : digits.takeWhile (fun c => (hexDigit? c).isSome) = digits := List.takeWhile_eq_self_iff.mpr hall
  have hclamp : max (-2 ^ 31) (min (2 ^ 31 - 1) (1 * (n : Int))) = n := by omega
  rcases hs with hs | hs
  · cases digits with
    | nil => exact absurd rfl hne
    | cons c cs =>
      have hc := hexDigit?_range (hall c (by simp))
      simp only [Cxx.readHex, hs, dropWhile_space hc.1, reduceCtorEq, if_false]
      split
      · rename_i heq
        obtain ⟨rfl, -⟩ := List.cons.inj heq
        exact absurd hc.1 (by decide)
      · rename_i heq
        obtain ⟨rfl, -⟩ := List.cons.inj heq
        exact absurd hc.1 (by decide)
      · dsimp only
        split
        · rename_i heq
          exact absurd rfl (hexDigit?_range (hall 'x' (heq ▸ by simp))).2.1
        · rename_i heq
          exact absurd rfl (hexDigit?_range (hall 'X' (heq ▸ by simp))).2.2
        · rw [htake, hdigits, Option.getD_some, hclamp]
  · have hzero : 48 ≤ '0'.toNat := by decide
    simp only [Cxx.readHex, hs, dropWhile_space hzero, reduceCtorEq, if_false]
    show Int32.ofInt (max (-2 ^ 31) (min (2 ^ 31 - 1)
      (1 * ((hexDigits? (digits.takeWhile fun c => (hexDigit? c).isSome)).getD 0 : Nat)))) = _
    rw [htake, hdigits, Option.getD_some, hclamp]

end Offset

/-- Both programs read the same offset. -/
theorem HexOffset.reads {s : String} {n : Nat} (h : HexOffset s n) (unset : Int32) :
    fromStrRadix16 (trimStart0x s.toList) = some (Int32.ofInt n) ∧ Cxx.readHex unset s = Int32.ofInt n := by
  obtain ⟨digits, hs, hdigits, -, hlt⟩ := h
  have htrim : trimStart0x s.toList = digits := by
    have hdigits' := trimStart0x_digits (hexDigits?_eq_some hdigits).2
    rcases hs with hs | hs
    · rw [hs, hdigits']
    · rw [hs, trimStart0x, hdigits']
  exact ⟨by rw [htrim, fromStrRadix16_digits hdigits hlt], readHex_digits hdigits hlt hs⟩

end UprobeStats
