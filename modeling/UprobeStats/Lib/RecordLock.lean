import Mathlib.Data.List.Basic

/-! Advisory locks on records: an owner holds a key together with others, or alone. A lock that conflicts with another
    owner's is not granted, and nobody waits for one. -/

namespace RecordLock

inductive Kind where
  | shared
  | exclusive
  deriving DecidableEq

structure Lock (ω κ : Type*) where
  owner : ω
  key : κ
  kind : Kind
  deriving DecidableEq

variable {ω κ : Type*}

def Lock.Conflicts (a b : Lock ω κ) : Prop :=
  a.owner ≠ b.owner ∧ a.key = b.key ∧ (a.kind = .exclusive ∨ b.kind = .exclusive)

instance [DecidableEq ω] [DecidableEq κ] (a b : Lock ω κ) : Decidable (a.Conflicts b) :=
  inferInstanceAs (Decidable (_ ∧ _ ∧ _))

theorem Lock.Conflicts.symm {a b : Lock ω κ} (h : a.Conflicts b) : b.Conflicts a :=
  ⟨h.1.symm, h.2.1.symm, h.2.2.symm⟩

/-- The locks that are held. -/
structure Table (ω κ : Type*) where
  locks : List (Lock ω κ)
  compatible : ∀ a ∈ locks, ∀ b ∈ locks, ¬a.Conflicts b

namespace Table

def empty : Table ω κ := ⟨[], by simp⟩

/-- A lock takes the place of the one that its owner has on the key. -/
def set [DecidableEq ω] [DecidableEq κ] (t : Table ω κ) (l : Lock ω κ) : Option (Table ω κ) :=
  if h : ∀ a ∈ t.locks, ¬a.Conflicts l then
    some {
      locks := l :: t.locks.filter fun a => !(a.owner = l.owner && a.key = l.key)
      compatible := by
        intro a ha b hb hab
        rcases List.mem_cons.mp ha with rfl | ha <;> rcases List.mem_cons.mp hb with rfl | hb
        · exact hab.1 rfl
        · exact h b (List.mem_filter.mp hb).1 hab.symm
        · exact h a (List.mem_filter.mp ha).1 hab
        · exact t.compatible a (List.mem_filter.mp ha).1 b (List.mem_filter.mp hb).1 hab }
  else none

/-- What is left when an owner is gone. -/
def release [DecidableEq ω] (t : Table ω κ) (owner : ω) : Table ω κ where
  locks := t.locks.filter fun a => !(a.owner = owner)
  compatible := fun a ha b hb => t.compatible a (List.mem_filter.mp ha).1 b (List.mem_filter.mp hb).1

/-! ### Lemmas -/

variable {t u : Table ω κ} {l a : Lock ω κ}

theorem mem_release [DecidableEq ω] {owner : ω} : a ∈ (t.release owner).locks ↔ a ∈ t.locks ∧ a.owner ≠ owner := by
  simp [release]

section Set
variable [DecidableEq ω] [DecidableEq κ]

theorem set_eq_none : t.set l = none ↔ ∃ a ∈ t.locks, a.Conflicts l := by
  unfold set
  split
  · rename_i h
    simpa using h
  · rename_i h
    push Not at h
    simpa using h

theorem mem_of_set (h : t.set l = some u) :
    a ∈ u.locks ↔ a = l ∨ a ∈ t.locks ∧ ¬(a.owner = l.owner ∧ a.key = l.key) := by
  unfold set at h
  split at h
  · cases h
    simp [List.mem_filter]
    tauto
  · cases h

end Set
end Table
end RecordLock
