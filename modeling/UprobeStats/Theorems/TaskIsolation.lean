import UprobeStats.DisruptiveApp
import UprobeStats.Histories
import UprobeStats.Theorems.PollLoop

/-! Isolation of tasks. A poll loop hands over what it polls, in order and up to the first failure. So a task
    reports records of its own time only, whenever no task before it has left records in the ring. -/

namespace UprobeStats
open Rust Effect SharedRing

section Loop
variable {H T : Type} (h : Handler H T) (env : Env) (task : ResolvedTask)

theorem handed_pollLoop (mapPath : String) (duration : Nat) : ∀ (polls : List (Poll Nat T)) (s : Session H T),
    ∃ n, (after ((pollLoop h env task mapPath duration (polls.map roundOf)).run s)).handed =
      s.handed ++ (polls.flatMap Poll.values).take n
  | [], s => ⟨0, (List.append_nil _).symm⟩
  | poll :: polls, s => by
    have hkeep (s' : Session H T) (hs' : s'.handed = s.handed) :
        ∃ n, s'.handed = s.handed ++ ((poll :: polls).flatMap Poll.values).take n := ⟨0, by simp [hs']⟩
    rw [List.map_cons]
    unfold pollLoop
    split
    · refine hkeep _ ?_
      have hfinish := h.sameHanded_onFinished env s
      rw [EStateM.run_bind]
      cases hrun : (h.onFinished env).run s <;> (rw [hrun] at hfinish; exact hfinish)
    · rename_i remaining hremaining
      cases htimeout : tryI32 remaining with
      | error e => exact hkeep _ rfl
      | ok timeout =>
        have hpoll : (call (.pollRingBuf mapPath timeout) fun _ => (roundOf poll).polled).run s =
            .ok poll.values { s with calls := s.calls ++ [.pollRingBuf mapPath timeout] } := rfl
        rw [EStateM.run_bind, run_lift]
        dsimp only
        rw [EStateM.run_bind, hpoll]
        dsimp only
        rw [EStateM.run_bind]
        obtain ⟨n, hn, hall⟩ := handed_forM_handItem h env task poll.values
          { s with calls := s.calls ++ [.pollRingBuf mapPath timeout] }
        cases hitems : (poll.values.forM (handItem h env task)).run
            { s with calls := s.calls ++ [.pollRingBuf mapPath timeout] } with
        | error e t =>
          rw [hitems] at hn
          refine ⟨min n poll.values.length, ?_⟩
          rw [List.flatMap_cons, List.take_append_of_le_length (Nat.min_le_right ..), ← List.take_eq_take_min]
          exact hn
        | ok u t =>
          rw [hitems] at hn
          obtain ⟨m, hm⟩ := handed_pollLoop mapPath duration polls t
          refine ⟨poll.values.length + m, ?_⟩
          dsimp only
          rw [hm, List.flatMap_cons, List.take_length_add_append, ← List.append_assoc]
          rw [List.take_of_length_le (hall u t hitems)] at hn
          rw [show t.handed = s.handed ++ poll.values from hn]

end Loop

/-! ### Tasks one after another -/

section Tasks
variable {H T : Type} {h : Handler H T}

/-- The records that the current task has handed to its handler are the first ones that it has taken, and
    each of them was submitted while the probes of this task were attached. -/
def Isolated (h : Handler H T) (s : TaskHistory T) : Prop :=
  ∀ r, s.reader = some r → ∃ xs, xs <+: r.taken ∧ (after (r.task.loop h r.polls)).handed = xs.map (·.value) ∧
    ∀ x ∈ xs, x.attach = s.attaches

theorem handed_loop (m : Monitor) (polls : List (Poll Nat T)) :
    ∃ n, (after (m.loop h polls)).handed = (polls.flatMap Poll.values).take n := by
  obtain ⟨n, hn⟩ := handed_pollLoop h m.env m.task h.mapPath m.duration polls { handler := h.default }
  refine ⟨n, ?_⟩
  rw [← List.nil_append (List.take n _), ← hn, Monitor.loop, pollLoopGeneric, if_neg (by simp)]
  rfl

/-- In a history in which every task attaches its probes while the ring holds no unread record, no task
    hands over a record of another's time. -/
theorem isolated_of_clean {actions : List (Action Monitor Nat T)} {s : TaskHistory T}
    (hrun : Steps.run (TaskHistory.step h) {} actions = some s)
    (hclean : ∀ pre m post u, actions = pre ++ .attach m :: post → Steps.run (TaskHistory.step h) {} pre = some u →
      unread u.queue = []) :
    Isolated h s := by
  have hcurrent : Current (fun _ _ => True) s := by
    refine current_of_run hrun fun pre a post u hactions hu => ?_
    cases a with
    | attach m =>
      intro x hx
      rw [hclean pre m post u hactions hu] at hx
      cases hx
    | _ => trivial
  intro r hr
  obtain ⟨n, hn⟩ := handed_loop (h := h) r.task r.polls
  refine ⟨r.taken.take n, List.take_prefix .., ?_, fun x hx => ?_⟩
  · rw [hn, List.map_take, Reader.taken, List.map_flatMap]
    rfl
  · exact hcurrent r hr x (.inl (List.mem_of_mem_take hx)) trivial

end Tasks

/-! ### Two tasks -/

def bound : BindServiceLocked :=
  let zeros := Chars.zeros maxStringLength
  ⟨zeros, zeros, zeros, zeros, 0, zeros⟩

def monitorFor (uid : Int32) : Monitor := ⟨quietEnv, { someTask with uid }, 1000⟩

/-- A record is submitted after the last poll of a task, and the next task polls. -/
def boundLate : List (Action Monitor Nat BindServiceLocked) :=
  [.attach (monitorFor 1000), .reserve bound, .submit 0, .exit, .attach (monitorFor 2000), .poll 0 1]

/-- The next task reports the record of the one before it. -/
theorem not_isolated_of_late_record :
    ∃ s, Steps.run (TaskHistory.step bindServiceLockedHandler) {} boundLate = some s ∧
      ¬Isolated bindServiceLockedHandler s := by
  have hread : (Steps.run (TaskHistory.step bindServiceLockedHandler) {} boundLate).map
      (fun s => (s.reader.map fun r => (r.taken, (after (r.task.loop bindServiceLockedHandler r.polls)).handed),
        s.attaches)) = some (some ([⟨bound, 1⟩], [bound]), 2) := by decide +kernel
  obtain ⟨s, hrun, hs⟩ := Option.map_eq_some_iff.mp hread
  obtain ⟨hreader, hattaches⟩ := Prod.mk.inj hs
  obtain ⟨r, hr, htaken⟩ := Option.map_eq_some_iff.mp hreader
  obtain ⟨htaken, hhanded⟩ := Prod.mk.inj htaken
  refine ⟨s, hrun, fun hisolated => ?_⟩
  obtain ⟨xs, hprefix, hxs, hattach⟩ := hisolated r hr
  rw [hhanded] at hxs
  obtain ⟨x, rfl, -⟩ := List.map_eq_singleton_iff.mp hxs.symm
  have hmem := hprefix.subset (List.mem_singleton_self x)
  rw [htaken, List.mem_singleton] at hmem
  have := hattach x (List.mem_singleton_self x)
  rw [hmem, hattaches] at this
  cases this

/-- A record of each of two tasks, which the task polls itself. -/
def boundInTime : List (Action Monitor Nat BindServiceLocked) :=
  [.attach (monitorFor 1000), .reserve bound, .submit 0, .poll 0 1, .exit,
    .attach (monitorFor 2000), .reserve { bound with bindFlags := 1 }, .submit 1, .poll 0 1]

theorem isolated_of_read_ring : ∃ s, Steps.run (TaskHistory.step bindServiceLockedHandler) {} boundInTime = some s ∧
    s.reader.map Reader.taken = some [⟨{ bound with bindFlags := 1 }, 2⟩] ∧ Isolated bindServiceLockedHandler s := by
  have hread : (Steps.run (TaskHistory.step bindServiceLockedHandler) {} boundInTime).map
      (fun s => s.reader.map Reader.taken) = some (some [⟨{ bound with bindFlags := 1 }, 2⟩]) := by decide +kernel
  have hclean : ∀ i < boundInTime.length, ∀ m ∈ boundInTime[i]?.bind Action.task?,
      ∀ u ∈ Steps.run (TaskHistory.step bindServiceLockedHandler) {} (boundInTime.take i), unread u.queue = [] := by
    decide +kernel
  obtain ⟨s, hrun, htaken⟩ := Option.map_eq_some_iff.mp hread
  exact ⟨s, hrun, htaken, isolated_of_clean hrun (forall_attach_of_lt hclean)⟩

end UprobeStats
