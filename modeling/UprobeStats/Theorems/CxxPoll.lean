import UprobeStats.Cxx.Poll

/-! The timeouts of `doPoll`. The loop tests one reading of the clock and computes the time left from a later one,
    which is cut to an `int`: a poll waits forever when the later reading is past the duration, or when the cut
    leaves a negative number. -/

namespace UprobeStats.Cxx

def PollOutput.timeout? : PollOutput → Option Int32
  | .pollRingBuf _ timeoutMs => some timeoutMs
  | .writeEvent _ => none

/-- The timeouts of the polls that are made. -/
def timeouts (outputs : List PollOutput) : List Int32 := outputs.filterMap PollOutput.timeout?

/-- A timeout that ends, and not after the duration. -/
def Bounded (duration : Int) (timeout : Int32) (read : Nat) : Prop :=
  0 ≤ timeout.toInt ∧ timeout.toInt * 1000000 ≤ duration - read

/-- The reading is not past the duration, and the milliseconds left have the sign that their low 32 bits have. -/
def Fits (duration : Int) (read : Nat) : Prop :=
  read ≤ duration ∧ (duration - read) / 1000000 % 2 ^ 32 < 2 ^ 31

instance (duration : Int) (read : Nat) : Decidable (Fits duration read) := inferInstanceAs (Decidable (_ ∧ _))

section Loop
variable {T : Type} {event : T → Option StatsEvent} {mapPath : String} {duration : Int}

theorem bounded_timeoutMs_iff {read : Nat} : Bounded duration (timeoutMs duration read) read ↔ Fits duration read := by
  have hvalue : (timeoutMs duration read).toInt = ((duration - read).tdiv 1000000).bmod (2 ^ 32) := Int32.toInt_ofInt ..
  rw [Bounded, Fits, hvalue, Int.bmod_def]
  by_cases hleft : (read : Int) ≤ duration
  · rw [Int.tdiv_eq_ediv_of_nonneg (by omega)]
    split <;> omega
  · split <;> omega

/-- The readings that the time left of each poll is computed from. -/
def readings (mapPath : String) (duration : Int) : Nat → List (PollTurn T) → List Nat
  | _, [] => []
  | now, turn :: turns =>
    if now < duration ∧ isSupported mapPath then turn.read :: readings mapPath duration turn.now turns else []

theorem timeouts_doPollFrom : ∀ {now : Nat} {turns : List (PollTurn T)},
    timeouts (doPollFrom event mapPath duration now turns) = (readings mapPath duration now turns).map (timeoutMs duration)
  | _, [] => rfl
  | now, turn :: turns => by
    rw [doPollFrom, readings]
    split
    · have hwrites : timeouts ((turn.values.filterMap event).map .writeEvent) = [] :=
        List.filterMap_eq_nil_iff.mpr (List.forall_mem_map.mpr fun _ _ => rfl)
      rw [List.map_cons, ← timeouts_doPollFrom, timeouts, List.cons_append,
        List.filterMap_cons_some (f := PollOutput.timeout?) rfl, List.filterMap_append]
      exact congrArg (_ :: ·) (congrArg (· ++ _) hwrites)
    · rfl

end Loop

/-- Every poll of a thread ends in time exactly when the time left fits at each reading that it is computed from. -/
theorem doPoll_bounded_iff {T : Type} (event : Task → T → Option StatsEvent) (mapPath : String) (taskConfig : Task)
    (turns : List (PollTurn T)) :
    List.Forall₂ (Bounded (durationNanos taskConfig)) (timeouts (doPoll event mapPath taskConfig turns))
        (readings mapPath (durationNanos taskConfig) 0 turns) ↔
      ∀ read ∈ readings mapPath (durationNanos taskConfig) 0 turns, Fits (durationNanos taskConfig) read := by
  rw [doPoll, timeouts_doPollFrom, List.forall₂_map_left_iff, List.forall₂_same]
  exact forall₂_congr fun read _ => bounded_timeoutMs_iff

/-- A thread that is held up for two seconds between the two readings of its first turn polls for minus one. -/
theorem doPoll_negative_of_late_reading :
    timeouts (doPoll callTimestampEvent "/sys/fs/bpf/uprobestats/map_GenericInstrumentation_call_timestamp_buf"
      { durationSeconds := some 1 } [⟨2000000000, [], 2000000000⟩]) = [-1000] ∧
    timeouts (doPoll callTimestampEvent "/sys/fs/bpf/uprobestats/map_GenericInstrumentation_call_timestamp_buf"
      { durationSeconds := some 2147484 } [⟨0, [], 2147484000000000⟩]) = [-2147483296] :=
  ⟨by decide +kernel, by decide +kernel⟩

end UprobeStats.Cxx
