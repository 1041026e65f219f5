import Mathlib.Tactic.Ring
import Mathlib.Data.UInt

/-! Little-endian bytes of machine integers. -/

namespace Bytes

/-- The low `k` bytes of `n`, least significant first. -/
def toLe : Nat → Nat → List UInt8
  | 0, _ => []
  | k + 1, n => UInt8.ofNat n :: toLe k (n / 256)

/-- The integer that little-endian bytes denote. -/
def ofLe : List UInt8 → Nat
  | [] => 0
  | b :: bs => b.toNat + 256 * ofLe bs

@[simp] theorem length_toLe {k : Nat} : ∀ {n : Nat}, (toLe k n).length = k := by
  induction k with
  | zero => simp [toLe]
  | succ k ih => simp [toLe, ih]

theorem ofLe_toLe : ∀ (k n : Nat), ofLe (toLe k n) = n % 256 ^ k
  | 0, n => by simp [toLe, ofLe, Nat.mod_one]
  | k + 1, n => by
    have hmod : n % 256 ^ (k + 1) = n % 256 + 256 * (n / 256 % 256 ^ k) := by
      rw [pow_succ', Nat.mod_mul]
    simp only [toLe, ofLe, ofLe_toLe k, UInt8.toNat_ofNat']
    rw [hmod]

theorem toLe_ofLe : ∀ bs : List UInt8, toLe bs.length (ofLe bs) = bs
  | [] => rfl
  | b :: bs => by
    have hb := b.toNat_lt
    have hlow : UInt8.ofNat (b.toNat + 256 * ofLe bs) = b := by
      rw [← UInt8.toNat_inj, UInt8.toNat_ofNat']
      omega
    have hrest : (b.toNat + 256 * ofLe bs) / 256 = ofLe bs := by omega
    rw [List.length_cons, toLe, ofLe, hlow, hrest, toLe_ofLe bs]

theorem ofLe_lt : ∀ bs : List UInt8, ofLe bs < 256 ^ bs.length
  | [] => Nat.one_pos
  | b :: bs => by
    have hb := b.toNat_lt
    have ih := ofLe_lt bs
    rw [ofLe, List.length_cons, pow_succ]
    omega

theorem toNat_ofLe_uint32 {bs : List UInt8} (h : bs.length = 4) : (UInt32.ofNat (ofLe bs)).toNat = ofLe bs := by
  have hlt := ofLe_lt bs
  rw [h] at hlt
  rw [UInt32.toNat_ofNat', Nat.mod_eq_of_lt (hlt.trans_eq (by norm_num))]

theorem ofLe_toLe_uint32 (x : UInt32) : UInt32.ofNat (ofLe (toLe 4 x.toNat)) = x := by
  have hx := x.toNat_lt
  rw [ofLe_toLe, Nat.mod_eq_of_lt (by omega), UInt32.ofNat_toNat]

/-! ### Pieces of one length -/

section Pieces
variable {α : Type} {n i k : Nat} {xs ys : List α}

/-- Of the pieces of a list, one is replaced. -/
theorem piece_replace (hys : ys.length = n) (hi : n * i + n ≤ xs.length) :
    ((xs.take (n * i) ++ ys ++ xs.drop (n * i + n)).drop (n * k)).take n =
      if k = i then ys else (xs.drop (n * k)).take n := by
  have htake : (xs.take (n * i)).length = n * i := by
    rw [List.length_take]
    omega
  rcases Nat.lt_trichotomy k i with hlt | rfl | hgt
  · have hle : n * k + n ≤ n * i := Nat.mul_le_mul_left n hlt
    rw [if_neg hlt.ne, List.append_assoc, List.drop_append_of_le_length (by omega),
      List.take_append_of_le_length (by rw [List.length_drop]; omega), List.drop_take, List.take_take, Nat.min_eq_left (by omega)]
  · rw [if_pos rfl, List.append_assoc, List.drop_append_of_le_length (by omega), List.drop_of_length_le (by omega),
      List.nil_append, List.take_append_of_le_length (by omega), List.take_of_length_le (by omega)]
  · have hle : n * i + n ≤ n * k := Nat.mul_le_mul_left n hgt
    rw [if_neg hgt.ne', List.drop_append, List.drop_of_length_le (by rw [List.length_append]; omega), List.nil_append,
      List.drop_drop, List.length_append, htake, hys, Nat.add_sub_cancel' hle]

/-- Lists are equal when the whole pieces of one are, and what is behind them. -/
theorem eq_of_pieces (hn : 0 < n) (hpieces : ∀ k < xs.length / n, (xs.drop (n * k)).take n = (ys.drop (n * k)).take n)
    (htail : xs.drop (n * (xs.length / n)) = ys.drop (n * (xs.length / n))) : xs = ys := by
  refine List.ext_getElem? fun p => ?_
  by_cases hp : p < n * (xs.length / n)
  · have hk : p / n < xs.length / n := Nat.div_lt_of_lt_mul hp
    have hpos : n * (p / n) + p % n = p := Nat.div_add_mod p n
    have hpiece := congrArg (·[p % n]?) (hpieces (p / n) hk)
    simpa only [List.getElem?_take, List.getElem?_drop, if_pos (Nat.mod_lt p hn), hpos] using hpiece
  · have hpos : n * (xs.length / n) + (p - n * (xs.length / n)) = p := by omega
    have hrest := congrArg (·[p - n * (xs.length / n)]?) htail
    simpa only [List.getElem?_drop, hpos] using hrest

end Pieces

end Bytes
