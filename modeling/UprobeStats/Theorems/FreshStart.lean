import UprobeStats.Histories
import UprobeStats.Theorems.Requests

/-! Fresh process starts. A wait returns the first record in the ring that it accepts, so it returns a start
    of its own time whenever no earlier run has left a record there that it accepts. -/

namespace UprobeStats
open Rust Effect SharedRing

/-- The record that a wait goes by: the first one polled that it does not pass over. -/
def Wait.found (wait : Wait) (records : List (Stamped ProcessChange)) : Option (Stamped ProcessChange) :=
  records.find? fun x => acceptChange wait.processName x.value ≠ .ok none

section Wait
variable {wait : Wait} {p : ResolvedProcess} {records : List (Stamped ProcessChange)}

theorem found_of_acceptChanges : ∀ {records : List (Stamped ProcessChange)},
    acceptChanges wait.processName (records.map (·.value)) = .ok (some p) →
      ∃ x, wait.found records = some x ∧ acceptChange wait.processName x.value = .ok (some p)
  | [], h => by cases h
  | x :: records, h => by
    obtain ⟨result, hx, h⟩ := andThen_eq_ok.mp h
    cases result with
    | some p' =>
      cases h
      exact ⟨x, by simp [Wait.found, hx], hx⟩
    | none =>
      obtain ⟨y, hy, hp⟩ := found_of_acceptChanges h
      exact ⟨y, by simpa [Wait.found, hx] using hy, hp⟩

theorem found_eq_none_of_acceptChanges : ∀ {records : List (Stamped ProcessChange)},
    acceptChanges wait.processName (records.map (·.value)) = .ok none → wait.found records = none
  | [], _ => rfl
  | x :: records, h => by
    obtain ⟨result, hx, h⟩ := andThen_eq_ok.mp h
    cases result with
    | some p' => cases h
    | none => simpa [Wait.found, hx] using found_eq_none_of_acceptChanges h

/-- What a wait returns is what it makes of the record that it goes by. -/
theorem found_of_waitLoop {duration : Nat} : ∀ {polls : List (Poll Nat ProcessChange)} {w w' : World},
    (waitLoop wait.processName duration (polls.map roundOf)).run w = .ok p w' →
      ∃ x, wait.found (polls.flatMap (·.records)) = some x ∧
        acceptChange wait.processName x.value = .ok (some p)
  | [], _, _, h => by cases h
  | poll :: polls, w, w', h => by
    rw [List.map_cons] at h
    unfold waitLoop at h
    split at h
    · cases h
    · obtain ⟨timeout, -, h⟩ := bind_lift_eq_ok.mp h
      obtain ⟨changes, v, hpoll, h⟩ := bind_eq_ok.mp h
      obtain ⟨hchanges, -⟩ := ask_eq_ok.mp hpoll
      obtain rfl := Except.ok.inj hchanges
      obtain ⟨result, haccept, h⟩ := bind_lift_eq_ok.mp h
      rw [List.flatMap_cons]
      cases result with
      | some p' =>
        cases h
        obtain ⟨x, hx, hp⟩ := found_of_acceptChanges haccept
        exact ⟨x, by rw [Wait.found, List.find?_append, ← Wait.found, hx, Option.some_or], hp⟩
      | none =>
        obtain ⟨x, hx, hp⟩ := found_of_waitLoop h
        refine ⟨x, ?_, hp⟩
        rw [Wait.found, List.find?_append, ← Wait.found, found_eq_none_of_acceptChanges haccept, Option.none_or]
        exact hx

end Wait

/-- The process that the current wait returns, if it returns one, is the one of the record that it goes by,
    and this record was submitted after that wait had attached its probe. -/
def Fresh (s : StartHistory) : Prop :=
  ∀ r, s.reader = some r → ∀ p (w w' : World),
    (waitLoop r.task.processName r.task.duration (r.polls.map roundOf)).run w = .ok p w' →
      ∃ x, r.task.found r.taken = some x ∧ acceptChange r.task.processName x.value = .ok (some p) ∧
        x.attach = s.attaches

/-- In a history in which no wait finds an unread record that it accepts when it attaches its probe, every
    process returned is freshly started. -/
theorem fresh_of_clean {actions : List (Action Wait Nat ProcessChange)} {s : StartHistory}
    (hrun : Steps.run StartHistory.step {} actions = some s)
    (hclean : ∀ pre wait post u, actions = pre ++ .attach wait :: post → Steps.run StartHistory.step {} pre = some u →
      ∀ x ∈ unread u.queue, ∀ p, acceptChange wait.processName x.value ≠ .ok (some p)) :
    Fresh s := by
  have hcurrent : Current (fun wait change => ∃ p, acceptChange wait.processName change = .ok (some p)) s := by
    refine current_of_run hrun fun pre a post u hactions hu => ?_
    cases a with
    | attach wait => exact fun x hx ⟨p, hp⟩ => hclean pre wait post u hactions hu x hx p hp
    | _ => trivial
  intro r hr p w w' hok
  obtain ⟨x, hfound, hp⟩ := found_of_waitLoop hok
  exact ⟨x, hfound, hp, hcurrent r hr x (.inl (List.mem_of_find?_eq_some hfound)) ⟨p, hp⟩⟩

/-! ### Two runs -/

def startOf (pid : Int32) (name : String) : ProcessChange := ⟨pid, 10001, (Chars.zeros 256).write (Text.utf8 name ++ [0])⟩

def waitFor (name : String) : Wait := ⟨some name, 1000⟩

/-- A run finds its process; a second process starts before the run exits. -/
def leftBehind : List (Action Wait Nat ProcessChange) :=
  [.attach (waitFor "com.one"), .reserve (startOf 200 "com.one"), .submit 0, .poll 0 1,
    .reserve (startOf 300 "com.two"), .submit 1, .exit]

def thenWaitForSecond : List (Action Wait Nat ProcessChange) :=
  leftBehind ++ [.attach (waitFor "com.two"), .poll 0 1]

/-- The next run waits for the second process, and returns the start that was left in the ring. -/
theorem not_fresh_of_left_behind :
    ∃ s, Steps.run StartHistory.step {} thenWaitForSecond = some s ∧ ¬Fresh s := by
  have hread : (Steps.run StartHistory.step {} thenWaitForSecond).map
      (fun s => (s.reader.map fun r => (r.task, r.polls), s.attaches)) =
        some (some (waitFor "com.two", [⟨0, [⟨startOf 300 "com.two", 1⟩]⟩]), 2) := by decide +kernel
  obtain ⟨s, hrun, hs⟩ := Option.map_eq_some_iff.mp hread
  obtain ⟨hreader, hattaches⟩ := Prod.mk.inj hs
  obtain ⟨⟨task, polls⟩, hr, hpolls⟩ := Option.map_eq_some_iff.mp hreader
  obtain ⟨rfl, rfl⟩ := Prod.mk.inj hpolls
  refine ⟨s, hrun, fun hfresh => ?_⟩
  have hreturns : value? ((waitLoop (some "com.two") 1000
      (List.map roundOf [⟨0, [⟨startOf 300 "com.two", 1⟩]⟩])).run { interfaces := .empty }) =
        some ⟨300, 10001, "com.two"⟩ := by decide +kernel
  obtain ⟨w', hok⟩ := exists_of_value? hreturns
  obtain ⟨x, hfound, -, hattach⟩ := hfresh _ hr _ _ w' hok
  have hmem := List.mem_of_find?_eq_some hfound
  obtain rfl : x = ⟨startOf 300 "com.two", 1⟩ := by simpa [Reader.taken] using hmem
  rw [hattaches] at hattach
  cases hattach

def thenWaitForThird : List (Action Wait Nat ProcessChange) :=
  leftBehind ++ [.attach (waitFor "com.three"), .reserve (startOf 400 "com.three"), .submit 2, .poll 0 2]

/-- The next run waits for a third process. It finds the start of the second one in the ring, and passes over it. -/
theorem fresh_of_other_name : ∃ s, Steps.run StartHistory.step {} thenWaitForThird = some s ∧
    s.reader.map Reader.taken = some [⟨startOf 300 "com.two", 1⟩, ⟨startOf 400 "com.three", 2⟩] ∧ Fresh s := by
  have hread : (Steps.run StartHistory.step {} thenWaitForThird).map (fun s => s.reader.map Reader.taken) =
      some (some [⟨startOf 300 "com.two", 1⟩, ⟨startOf 400 "com.three", 2⟩]) := by decide +kernel
  have hclean : ∀ i < thenWaitForThird.length, ∀ wait ∈ thenWaitForThird[i]?.bind Action.task?,
      ∀ u ∈ Steps.run StartHistory.step {} (thenWaitForThird.take i),
      ∀ x ∈ unread u.queue, acceptChange wait.processName x.value = .ok none := by decide +kernel
  obtain ⟨s, hrun, htaken⟩ := Option.map_eq_some_iff.mp hread
  refine ⟨s, hrun, htaken, fresh_of_clean hrun fun pre wait post u hactions hu x hx p haccept => ?_⟩
  rw [forall_attach_of_lt hclean pre wait post u hactions hu x hx] at haccept
  cases haccept

end UprobeStats
