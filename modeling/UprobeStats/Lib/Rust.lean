import Mathlib.Data.Int.Basic
import Mathlib.Data.List.Forall2
import Mathlib.Tactic.Ring

/-! How functions of Rust fail, and the checked integer operations of its standard library. -/

namespace Rust

/-- A function returns an error that it words itself or one of the standard library, or it panics. -/
inductive Error where
  | message (text : String)
  | tryFromInt
  | fromBytesUntilNul
  | utf8
  | panic (text : String)
  deriving DecidableEq, Repr

def Error.text : Error → String
  | message text => text
  | tryFromInt => "out of range integral type conversion attempted"
  | fromBytesUntilNul => "data provided does not contain a nul"
  | utf8 => "invalid utf-8 sequence"
  | panic text => text

def ensure (cond : Bool) (text : String) : Except Error Unit := if cond then .ok () else .error (.message text)

def okOr {α : Type} (value : Option α) (text : String) : Except Error α :=
  match value with
  | some a => .ok a
  | none => .error (.message text)

theorem ensure_eq_ok {cond : Bool} {text : String} {u : Unit} : ensure cond text = .ok u ↔ cond = true := by
  cases cond <;> simp [ensure]

theorem okOr_eq_ok {α : Type} {value : Option α} {text : String} {a : α} : okOr value text = .ok a ↔ value = some a := by
  cases value <;> simp [okOr]

theorem ok_andThen {ε α β : Type} {a : α} {f : α → Except ε β} : (Except.ok a >>= f) = f a := rfl

theorem error_andThen {ε α β : Type} {e : ε} {f : α → Except ε β} : (Except.error e >>= f) = .error e := rfl

theorem andThen_eq_ok {ε α β : Type} {x : Except ε α} {f : α → Except ε β} {b : β} :
    (x >>= f) = .ok b ↔ ∃ a, x = .ok a ∧ f a = .ok b := by
  cases x <;> simp [bind, Except.bind]

/-- A traversal succeeds when each of its steps does. -/
theorem mapM_eq_ok {ε α β : Type} {f : α → Except ε β} : ∀ {as : List α} {bs : List β},
    as.mapM f = .ok bs ↔ as.Forall₂ (fun a b => f a = .ok b) bs
  | [], bs => by
    rw [List.mapM_nil, List.forall₂_nil_left_iff]
    exact ⟨fun h => (Except.ok.inj h).symm, fun h => h ▸ rfl⟩
  | a :: as, bs => by
    rw [List.mapM_cons, andThen_eq_ok, List.forall₂_cons_left_iff]
    constructor
    · rintro ⟨b, hb, h⟩
      obtain ⟨bs', hbs', h⟩ := andThen_eq_ok.mp h
      cases h
      exact ⟨b, bs', hb, mapM_eq_ok.mp hbs', rfl⟩
    · rintro ⟨b, bs', hb, hbs', rfl⟩
      exact ⟨b, hb, andThen_eq_ok.mpr ⟨bs', mapM_eq_ok.mpr hbs', rfl⟩⟩

/-! ### Conversions -/

/-- `try_into` an `i32`. -/
def tryI32 (n : Int) : Except Error Int32 :=
  if -2 ^ 31 ≤ n ∧ n < 2 ^ 31 then .ok (Int32.ofInt n) else .error .tryFromInt

def tryI64 (n : Int) : Except Error Int64 :=
  if -2 ^ 63 ≤ n ∧ n < 2 ^ 63 then .ok (Int64.ofInt n) else .error .tryFromInt

def tryU32 (n : Int) : Except Error UInt32 :=
  if 0 ≤ n ∧ n < 2 ^ 32 then .ok (UInt32.ofNat n.toNat) else .error .tryFromInt

def tryU64 (n : Int) : Except Error UInt64 :=
  if 0 ≤ n ∧ n < 2 ^ 64 then .ok (UInt64.ofNat n.toNat) else .error .tryFromInt

theorem tryI32_eq_ok {n : Int} {x : Int32} : tryI32 n = .ok x ↔ x.toInt = n := by
  unfold tryI32
  constructor
  · intro h
    split at h
    · rename_i hn
      cases h
      exact Int32.toInt_ofInt_of_le hn.1 hn.2
    · cases h
  · rintro rfl
    have h1 := x.le_toInt
    have h2 := x.toInt_lt
    rw [if_pos ⟨h1, h2⟩, Int32.ofInt_toInt]

theorem tryI32_eq_error {n : Int} {e : Error} : tryI32 n = .error e ↔ ¬(-2 ^ 31 ≤ n ∧ n < 2 ^ 31) ∧ e = .tryFromInt := by
  unfold tryI32
  split <;> simp_all [eq_comm]

theorem eq_ofInt_of_tryI32 {n : Int} {x : Int32} (h : tryI32 n = .ok x) : x = Int32.ofInt n := by
  rw [← tryI32_eq_ok.mp h, Int32.ofInt_toInt]

theorem tryI64_eq_ok {n : Int} {x : Int64} : tryI64 n = .ok x ↔ x.toInt = n := by
  unfold tryI64
  constructor
  · intro h
    split at h
    · rename_i hn
      cases h
      exact Int64.toInt_ofInt_of_le hn.1 hn.2
    · cases h
  · rintro rfl
    have h1 := x.le_toInt
    have h2 := x.toInt_lt
    rw [if_pos ⟨h1, h2⟩, Int64.ofInt_toInt]

theorem tryI64_of_mem {n : Int} (h : -2 ^ 63 ≤ n ∧ n < 2 ^ 63) : tryI64 n = .ok (Int64.ofInt n) := if_pos h

theorem tryU64_eq_ok {n : Int} {x : UInt64} : tryU64 n = .ok x ↔ (x.toNat : Int) = n := by
  unfold tryU64
  constructor
  · intro h
    split at h
    · rename_i hn
      cases h
      rw [UInt64.toNat_ofNat', Nat.mod_eq_of_lt (by omega)]
      omega
    · cases h
  · rintro rfl
    have h1 := x.toNat_lt
    rw [if_pos (by omega), Int.toNat_natCast, UInt64.ofNat_toNat]

/-! ### Arithmetic -/

def addI32 (a b : Int32) : Except Error Int32 :=
  (tryI32 (a.toInt + b.toInt)).mapError fun _ => .panic "attempt to add with overflow"

/-- `+=` on an `i64`. -/
def addI64 (a b : Int64) : Except Error Int64 :=
  (tryI64 (a.toInt + b.toInt)).mapError fun _ => .panic "attempt to add with overflow"

def subI64 (a b : Int64) : Except Error Int64 :=
  (tryI64 (a.toInt - b.toInt)).mapError fun _ => .panic "attempt to subtract with overflow"

theorem mapError_eq_ok {ε ε' α : Type} {x : Except ε α} {f : ε → ε'} {a : α} : x.mapError f = .ok a ↔ x = .ok a := by
  cases x <;> simp [Except.mapError]

theorem addI32_eq_ok {a b x : Int32} : addI32 a b = .ok x ↔ x.toInt = a.toInt + b.toInt :=
  mapError_eq_ok.trans tryI32_eq_ok

theorem addI64_eq_ok {a b x : Int64} : addI64 a b = .ok x ↔ x.toInt = a.toInt + b.toInt :=
  mapError_eq_ok.trans tryI64_eq_ok

theorem subI64_eq_ok {a b x : Int64} : subI64 a b = .ok x ↔ x.toInt = a.toInt - b.toInt :=
  mapError_eq_ok.trans tryI64_eq_ok

theorem addI64_of_mem {a b : Int64} (h : -2 ^ 63 ≤ a.toInt + b.toInt ∧ a.toInt + b.toInt < 2 ^ 63) :
    addI64 a b = .ok (Int64.ofInt (a.toInt + b.toInt)) := by rw [addI64, tryI64_of_mem h]; rfl

theorem subI64_of_mem {a b : Int64} (h : -2 ^ 63 ≤ a.toInt - b.toInt ∧ a.toInt - b.toInt < 2 ^ 63) :
    subI64 a b = .ok (Int64.ofInt (a.toInt - b.toInt)) := by rw [subI64, tryI64_of_mem h]; rfl

end Rust
