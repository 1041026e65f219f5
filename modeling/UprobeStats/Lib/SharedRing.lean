import UprobeStats.Lib.Fifo
import Mathlib.Tactic.Common

/-! A FIFO queue that outlives its readers. They come one after another: each attaches the writers, takes
    records from the head of the queue as long as it goes on, and leaves, which detaches the writers. What a
    reader does not take is there for the next one, so a record carries the number of the attach that it was
    submitted under. -/

namespace SharedRing
open Fifo

variable {ρ κ α β : Type}

/-- A record, and how many attaches there had been when it was submitted. -/
structure Stamped (α : Type) where
  value : α
  attach : Nat
  deriving DecidableEq

/-- What the clock of a reader showed when it polled, and what the poll took. -/
structure Poll (κ α : Type) where
  clock : κ
  records : List (Stamped α)
  deriving DecidableEq

def Poll.values (p : Poll κ α) : List α := p.records.map (·.value)

structure Reader (ρ κ α : Type) where
  task : ρ
  polls : List (Poll κ α) := []

def Reader.taken (r : Reader ρ κ α) : List (Stamped α) := r.polls.flatMap (·.records)

structure State (ρ κ α : Type) where
  queue : Queue (Stamped α) := {}
  attaches : Nat := 0
  reader : Option (Reader ρ κ α) := none

inductive Action (ρ κ α : Type) where
  | attach (task : ρ)
  | reserve (value : α)
  | submit (index : Nat)
  | poll (clock : κ) (count : Nat)
  | exit

/-- The next `count` slots, none of them busy, are passed; the records among them are taken. -/
def take (q : Queue β) : Nat → Option (List β × Queue β)
  | 0 => some ([], q)
  | count + 1 => do
    let x ← q.slots[q.head]?
    let q ← q.step .pass
    let (values, r) ← take q count
    some (if x.status = .committed then x.value :: values else values, r)

def submit (q : Queue (Stamped α)) (index attach : Nat) : Option (Queue (Stamped α)) := do
  let x ← q.busy? index
  let q ← q.step (.write index { x.value with attach })
  q.step (.settle index .committed)

/-- A reader polls as long as `goesOn` holds of its task, its polls so far and the clock. -/
def step (goesOn : ρ → List (Poll κ α) → κ → Bool) (s : State ρ κ α) : Action ρ κ α → Option (State ρ κ α)
  | .attach task =>
    if s.reader.isSome then none else some { s with attaches := s.attaches + 1, reader := some { task } }
  | .reserve value =>
    if s.reader.isSome then (s.queue.step (.reserve ⟨value, 0⟩)).map fun q => { s with queue := q } else none
  | .submit index => (submit s.queue index s.attaches).map fun q => { s with queue := q }
  | .poll clock count => do
    let r ← s.reader
    if goesOn r.task r.polls clock then
      let (records, q) ← take s.queue count
      some { s with queue := q, reader := some { r with polls := r.polls ++ [⟨clock, records⟩] } }
    else none
  | .exit => some { s with reader := none }

/-! ### Unread records -/

def unread (q : Queue β) : List β := (q.pending.filter (·.status = .committed)).map (·.value)

section Unread
variable {q r : Queue β} {x : β}

theorem mem_unread : x ∈ unread q ↔ ⟨x, .committed⟩ ∈ q.pending := by
  simp only [unread, List.mem_map, List.mem_filter, decide_eq_true_eq]
  constructor
  · rintro ⟨⟨value, status⟩, ⟨hmem, rfl⟩, rfl⟩
    exact hmem
  · exact fun hmem => ⟨_, ⟨hmem, rfl⟩, rfl⟩

theorem mem_unread_of_reserve {y : β} (h : q.step (.reserve y) = some r) (hx : x ∈ unread r) : x ∈ unread q := by
  obtain rfl := Option.some.inj h
  rw [mem_unread, Queue.pending, List.drop_append] at hx
  rcases List.mem_append.mp hx with hx | hx
  · exact mem_unread.mpr hx
  · have := List.mem_singleton.mp (List.mem_of_mem_drop hx)
    cases this

theorem mem_unread_of_take : ∀ {count : Nat} {q : Queue β} {values : List β}, take q count = some (values, r) →
    (∀ x ∈ values, x ∈ unread q) ∧ ∀ x ∈ unread r, x ∈ unread q
  | 0, q, values, h => by
    cases h
    exact ⟨by simp, fun x hx => hx⟩
  | count + 1, q, values, h => by
    obtain ⟨y, hy, h⟩ := Option.bind_eq_some_iff.mp h
    obtain ⟨q', hpass, h⟩ := Option.bind_eq_some_iff.mp h
    obtain ⟨⟨values', r'⟩, htake, h⟩ := Option.bind_eq_some_iff.mp h
    cases h
    obtain ⟨hvalues, hrest⟩ := mem_unread_of_take htake
    have hq : q.pending = y :: q'.pending := by
      obtain ⟨z, hz, hpass⟩ := Option.bind_eq_some_iff.mp hpass
      split at hpass
      · cases hpass
      · obtain rfl := Option.some.inj hpass
        rw [Queue.pending, Queue.pending, List.drop_eq_getElem?_toList_append, hy]
        rfl
    have hkeep : ∀ x ∈ unread q', x ∈ unread q := by
      intro x hx
      rw [mem_unread, hq]
      exact List.mem_cons_of_mem _ (mem_unread.mp hx)
    refine ⟨fun x hx => ?_, fun x hx => hkeep x (hrest x hx)⟩
    split at hx
    · rename_i hstatus
      rcases List.mem_cons.mp hx with rfl | hx
      · rw [mem_unread, hq, ← hstatus]
        exact List.mem_cons_self ..
      · exact hkeep x (hvalues x hx)
    · exact hkeep x (hvalues x hx)

theorem mem_unread_of_submit {q r : Queue (Stamped α)} {index attach : Nat} {x : Stamped α}
    (h : submit q index attach = some r) (hx : x ∈ unread r) : x ∈ unread q ∨ x.attach = attach := by
  obtain ⟨y, hy, h⟩ := Option.bind_eq_some_iff.mp h
  obtain ⟨q', hwrite, h⟩ := Option.bind_eq_some_iff.mp h
  obtain ⟨_, -, hwrite⟩ := Option.bind_eq_some_iff.mp hwrite
  obtain rfl := Option.some.inj hwrite
  obtain ⟨z, hz, h⟩ := Option.bind_eq_some_iff.mp h
  obtain rfl := Option.some.inj h
  have hlt := (List.getElem?_eq_some_iff.mp (Queue.busy?_eq_some.mp hy).1).1
  have hz' : z = ⟨{ y.value with attach }, .busy⟩ := by
    have := (Queue.busy?_eq_some.mp hz).1
    rw [List.getElem?_set_self hlt] at this
    exact (Option.some.inj this).symm
  subst hz'
  rw [mem_unread, Queue.pending, List.set_set, List.drop_set] at hx
  split at hx
  · exact .inl (mem_unread.mpr hx)
  · rcases List.mem_or_eq_of_mem_set hx with hx | hx
    · exact .inl (mem_unread.mpr hx)
    · cases hx
      exact .inr rfl

end Unread

/-! ### Histories -/

section Histories
variable {goesOn : ρ → List (Poll κ α) → κ → Bool} {bad : ρ → α → Prop} {s t : State ρ κ α} {a : Action ρ κ α}

/-- What the reader has taken or may still take was submitted under its attach, if it is `bad` for it. -/
def Current (bad : ρ → α → Prop) (s : State ρ κ α) : Prop :=
  ∀ r, s.reader = some r → ∀ x, x ∈ r.taken ∨ x ∈ unread s.queue → bad r.task x.value → x.attach = s.attaches

def Clean (bad : ρ → α → Prop) (s : State ρ κ α) : Action ρ κ α → Prop
  | .attach task => ∀ x ∈ unread s.queue, ¬bad task x.value
  | _ => True

theorem Current.step (h : Current bad s) (hclean : Clean bad s a) (hs : step goesOn s a = some t) : Current bad t := by
  cases a with
  | attach task =>
    rw [SharedRing.step] at hs
    split at hs
    · cases hs
    · obtain rfl := Option.some.inj hs
      rintro r hr x hx hbad
      obtain rfl := Option.some.inj hr
      rcases hx with hx | hx
      · simp [Reader.taken] at hx
      · exact absurd hbad (hclean x hx)
  | reserve value =>
    rw [SharedRing.step] at hs
    split at hs
    · obtain ⟨q, hq, rfl⟩ := Option.map_eq_some_iff.mp hs
      exact fun r hr x hx => h r hr x (hx.imp_right (mem_unread_of_reserve hq))
    · cases hs
  | submit index =>
    obtain ⟨q, hq, rfl⟩ := Option.map_eq_some_iff.mp hs
    rintro r hr x (hx | hx) hbad
    · exact h r hr x (.inl hx) hbad
    · rcases mem_unread_of_submit hq hx with hx | hx
      · exact h r hr x (.inr hx) hbad
      · exact hx
  | poll clock count =>
    obtain ⟨r, hr, hs⟩ := Option.bind_eq_some_iff.mp hs
    split at hs
    · obtain ⟨⟨records, q⟩, htake, hs⟩ := Option.bind_eq_some_iff.mp hs
      obtain rfl := Option.some.inj hs
      obtain ⟨hrecords, hrest⟩ := mem_unread_of_take htake
      rintro r' hr' x hx hbad
      obtain rfl := Option.some.inj hr'
      have htaken : x ∈ r.taken ∨ x ∈ unread s.queue := by
        rcases hx with hx | hx
        · rw [Reader.taken, List.flatMap_append] at hx
          rcases List.mem_append.mp hx with hx | hx
          · exact .inl hx
          · exact .inr (hrecords x (by simpa using hx))
        · exact .inr (hrest x hx)
      exact h r hr x htaken hbad
    · cases hs
  | exit =>
    obtain rfl := Option.some.inj hs
    rintro r hr
    cases hr

/-- In a history in which every reader finds a clean queue, all that a reader takes and that is bad for it
    was submitted under its own attach. -/
theorem current_of_run {actions : List (Action ρ κ α)} (hrun : Steps.run (step goesOn) {} actions = some s)
    (hclean : ∀ pre a post u, actions = pre ++ a :: post → Steps.run (step goesOn) {} pre = some u → Clean bad u a) :
    Current bad s :=
  Steps.run_inv (fun _ _ _ hs hclean => hs.step hclean) (fun r hr => by cases hr) hrun hclean

def Action.task? : Action ρ κ α → Option ρ
  | .attach task => some task
  | _ => none

/-- What holds at each position of an attach holds at each attach. -/
theorem forall_attach_of_lt {p : ρ → State ρ κ α → Prop} {actions : List (Action ρ κ α)}
    (h : ∀ i < actions.length, ∀ task ∈ actions[i]?.bind Action.task?,
      ∀ u ∈ Steps.run (step goesOn) {} (actions.take i), p task u) :
    ∀ pre task post u, actions = pre ++ .attach task :: post → Steps.run (step goesOn) {} pre = some u → p task u := by
  rintro pre task post u rfl hu
  exact h pre.length (by simp) task (by simp [Action.task?]) u (by simpa using hu)

end Histories
end SharedRing
