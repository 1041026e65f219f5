import UprobeStats.Lib.Steps
import Mathlib.Data.List.Basic

/-! A FIFO queue whose slots are reserved in order, filled in place and settled in any order, with one
    reader. The reader passes the slots in the order of their reservation and never passes one that is
    still busy, so what it has passed is the initial segment of the settled queue, each slot once. -/

namespace Fifo

/-- A slot is busy until its writer commits or discards it. -/
inductive Status where
  | busy
  | committed
  | discarded
  deriving DecidableEq, Repr

structure Slot (α : Type*) where
  value : α
  status : Status
  deriving DecidableEq, Repr

/-- All slots reserved so far, oldest first, and how many of them the reader has passed. -/
structure Queue (α : Type*) where
  slots : List (Slot α) := []
  head : Nat := 0

inductive Action (α : Type*) where
  | reserve (value : α)
  | write (index : Nat) (value : α)
  | settle (index : Nat) (status : Status)
  | pass

namespace Queue
variable {α : Type*}

def passed (q : Queue α) : List (Slot α) := q.slots.take q.head

def pending (q : Queue α) : List (Slot α) := q.slots.drop q.head

def busy? (q : Queue α) (index : Nat) : Option (Slot α) :=
  q.slots[index]?.filter (·.status = .busy)

def step (q : Queue α) : Action α → Option (Queue α)
  | .reserve value => some { q with slots := q.slots ++ [⟨value, .busy⟩] }
  | .write index value => do
    let _ ← q.busy? index
    some { q with slots := q.slots.set index ⟨value, .busy⟩ }
  | .settle index status => do
    let x ← q.busy? index
    some { q with slots := q.slots.set index { x with status } }
  | .pass => do
    let x ← q.slots[q.head]?
    if x.status = .busy then none else some { q with head := q.head + 1 }

/-- The reader is inside the queue, and no slot that it has passed is busy. -/
structure Ordered (q : Queue α) : Prop where
  head_le : q.head ≤ q.slots.length
  settled : ∀ x ∈ q.passed, x.status ≠ .busy

theorem busy?_eq_some {q : Queue α} {i : Nat} {x : Slot α} :
    q.busy? i = some x ↔ q.slots[i]? = some x ∧ x.status = .busy := by
  simp [busy?, Option.filter_eq_some_iff]

theorem Ordered.head_le_of_busy {q : Queue α} (h : q.Ordered) {i : Nat} {x : Slot α} (hx : q.busy? i = some x) :
    q.head ≤ i := by
  obtain ⟨hi, hb⟩ := busy?_eq_some.mp hx
  by_contra hlt
  have hmem : q.passed[i]? = some x := by
    rw [passed, List.getElem?_take_of_lt (by omega)]
    exact hi
  exact h.settled x (List.mem_of_getElem? hmem) hb

/-- What a step does to the passed slots: `pass` adds the slot at the head, and nothing else changes them. -/
theorem step_passed {q r : Queue α} {a : Action α} (h : q.Ordered) (hs : q.step a = some r) :
    (∃ x, a = .pass ∧ q.slots[q.head]? = some x ∧ x.status ≠ .busy ∧ r.passed = q.passed ++ [x]) ∨
      (a ≠ .pass ∧ r.passed = q.passed ∧ r.head = q.head) := by
  cases a with
  | reserve value =>
    obtain rfl := Option.some.inj hs
    exact .inr ⟨by simp, by simp [passed, List.take_append_of_le_length h.head_le], rfl⟩
  | write i value =>
    obtain ⟨x, hx, hs⟩ := Option.bind_eq_some_iff.mp hs
    obtain rfl := Option.some.inj hs
    exact .inr ⟨by simp, List.take_set_of_le (h.head_le_of_busy hx), rfl⟩
  | settle i status =>
    obtain ⟨x, hx, hs⟩ := Option.bind_eq_some_iff.mp hs
    obtain rfl := Option.some.inj hs
    exact .inr ⟨by simp, List.take_set_of_le (h.head_le_of_busy hx), rfl⟩
  | pass =>
    obtain ⟨x, hx, hs⟩ := Option.bind_eq_some_iff.mp hs
    split at hs
    · cases hs
    · rename_i hb
      obtain rfl := Option.some.inj hs
      refine .inl ⟨x, rfl, hx, hb, ?_⟩
      simp [passed, List.take_add_one, hx]

theorem Ordered.step {q r : Queue α} {a : Action α} (h : q.Ordered) (hs : q.step a = some r) : r.Ordered := by
  have hsettled : ∀ x ∈ r.passed, x.status ≠ .busy := by
    rcases step_passed h hs with ⟨x, -, -, hb, hp⟩ | ⟨-, hp, -⟩
    · rw [hp]
      intro y hy
      rcases List.mem_append.mp hy with hy | hy
      · exact h.settled y hy
      · rwa [List.mem_singleton.mp hy]
    · rw [hp]
      exact h.settled
  refine ⟨?_, hsettled⟩
  have hle := h.head_le
  cases a with
  | reserve value => obtain rfl := Option.some.inj hs; simp; omega
  | write i value =>
    obtain ⟨x, -, hs⟩ := Option.bind_eq_some_iff.mp hs
    obtain rfl := Option.some.inj hs
    simpa using hle
  | settle i status =>
    obtain ⟨x, -, hs⟩ := Option.bind_eq_some_iff.mp hs
    obtain rfl := Option.some.inj hs
    simpa using hle
  | pass =>
    obtain ⟨x, hx, hs⟩ := Option.bind_eq_some_iff.mp hs
    split at hs
    · cases hs
    · obtain rfl := Option.some.inj hs
      exact (List.getElem?_eq_some_iff.mp hx).1

/-- A slot that is settled stays as it is. -/
theorem step_settled {q r : Queue α} {a : Action α} {i : Nat} {x : Slot α} (hs : q.step a = some r)
    (hx : q.slots[i]? = some x) (hb : x.status ≠ .busy) : r.slots[i]? = some x := by
  have hset {j : Nat} {y z : Slot α} (hy : q.busy? j = some y) : (q.slots.set j z)[i]? = some x := by
    obtain ⟨hj, hbusy⟩ := busy?_eq_some.mp hy
    have hne : j ≠ i := by
      rintro rfl
      rw [hx] at hj
      cases hj
      exact hb hbusy
    rw [List.getElem?_set_ne hne, hx]
  cases a with
  | reserve value =>
    obtain rfl := Option.some.inj hs
    exact (List.getElem?_append_left (List.getElem?_eq_some_iff.mp hx).1).trans hx
  | write j value =>
    obtain ⟨y, hy, hs⟩ := Option.bind_eq_some_iff.mp hs
    obtain rfl := Option.some.inj hs
    exact hset hy
  | settle j status =>
    obtain ⟨y, hy, hs⟩ := Option.bind_eq_some_iff.mp hs
    obtain rfl := Option.some.inj hs
    exact hset hy
  | pass =>
    obtain ⟨y, -, hs⟩ := Option.bind_eq_some_iff.mp hs
    split at hs
    · cases hs
    · obtain rfl := Option.some.inj hs
      exact hx

theorem Ordered.empty : ({} : Queue α).Ordered := ⟨Nat.le_refl _, by simp [passed]⟩

theorem ordered_of_reachable {q : Queue α} (h : Steps.Reachable step {} q) : q.Ordered :=
  h.inv Ordered.empty fun _ _ _ hq hs => hq.step hs

end Queue

/-! ### Readers that fail -/

/-- The second list is the first with so many copies put in, each right behind its entry. -/
inductive Repeats {α : Type*} : List α → List α → Nat → Prop where
  | nil : Repeats [] [] 0
  | next {xs ys : List α} {n : Nat} (x : α) (h : Repeats xs ys n) : Repeats (xs ++ [x]) (ys ++ [x]) n
  | again {xs ys : List α} {n : Nat} {x : α} (h : Repeats (xs ++ [x]) ys n) : Repeats (xs ++ [x]) (ys ++ [x]) (n + 1)

end Fifo
