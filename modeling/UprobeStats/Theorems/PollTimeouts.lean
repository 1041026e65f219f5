import UprobeStats.GenericInstrumentation
import UprobeStats.Theorems.PollLoop
import UprobeStats.Theorems.Requests

/-! The timeouts of the two poll loops. A duration is checked in seconds and polled for in milliseconds of a
    narrower type: the loops work exactly when the time left at the first reading of the clock fits. -/

namespace UprobeStats
open Rust Effect

/-! ### The loops that are meant -/

/-- The time left at a reading, as the timeout of a poll. -/
def timeoutAt (duration elapsed : Nat) : Int32 := Int32.ofInt (duration - elapsed : Nat)

/-- The loop of `poll_loop_generic`: at each reading up to the duration it polls for the time left, and at the first
    one after it, it stops. -/
def pollTurns {H T : Type} (h : Handler H T) (env : Env) (task : ResolvedTask) (mapPath : String) (duration : Nat) :
    List (Round T) → Handling H T Bool
  | [] => pure false
  | round :: rounds =>
    if round.elapsed ≤ duration then do
      let result ← call (.pollRingBuf mapPath (timeoutAt duration round.elapsed)) fun _ => round.polled
      result.forM (handItem h env task)
      pollTurns h env task mapPath duration rounds
    else do
      h.onFinished env
      pure true

/-- The same for the loop of `wait_for_app_start_uprobe`. -/
def waitTurns (processName : Option String) (duration : Nat) : List (Round ProcessChange) → Prog ResolvedProcess
  | [] => throw (waitTimeout processName duration)
  | round :: rounds =>
    if round.elapsed ≤ duration then do
      let result ← ask (.pollStarts (timeoutAt duration round.elapsed)) fun _ => round.polled
      match ← lift (acceptChanges processName result) with
      | some resolved => pure resolved
      | none => waitTurns processName duration rounds
    else throw (waitTimeout processName duration)

/-- Both loops poll at these readings as they are meant to, each time for no more than the time left. -/
structure PollsThroughout (duration : Nat) (readings : List Nat) : Prop where
  timeouts : ∀ e ∈ readings.takeWhile (· ≤ duration),
    0 ≤ (timeoutAt duration e).toInt ∧ (timeoutAt duration e).toInt ≤ (duration - e : Nat)
  pollLoop : ∀ (H T : Type) (h : Handler H T) (env : Env) (task : ResolvedTask) (mapPath : String)
    (rounds : List (Round T)), rounds.map (·.elapsed) = readings →
      pollLoop h env task mapPath duration rounds = pollTurns h env task mapPath duration rounds
  waitLoop : ∀ (processName : Option String) (rounds : List (Round ProcessChange)),
    rounds.map (·.elapsed) = readings → waitLoop processName duration rounds = waitTurns processName duration rounds

section Loops
variable {duration : Nat} {readings : List Nat}

theorem tryI32_timeLeft {n : Nat} (h : n < 2 ^ 31) : tryI32 n = .ok (Int32.ofInt n) := if_pos (by omega)

theorem pollLoop_eq_pollTurns {H T : Type} {h : Handler H T} {env : Env} {task : ResolvedTask} {mapPath : String} :
    ∀ {rounds : List (Round T)},
      (∀ e ∈ (rounds.map (·.elapsed)).takeWhile (· ≤ duration), duration - e < 2 ^ 31) →
      pollLoop h env task mapPath duration rounds = pollTurns h env task mapPath duration rounds
  | [], _ => rfl
  | round :: rounds, hfits => by
    rw [pollLoop, pollTurns, remainingMillis]
    by_cases hexpired : round.elapsed ≤ duration
    · rw [List.map_cons, List.takeWhile_cons_of_pos (by simpa using hexpired)] at hfits
      obtain ⟨hfirst, hrest⟩ := List.forall_mem_cons.mp hfits
      rw [if_pos hexpired, if_pos hexpired, ← pollLoop_eq_pollTurns hrest]
      dsimp only
      rw [tryI32_timeLeft hfirst]
      rfl
    · rw [if_neg hexpired, if_neg hexpired]

theorem waitLoop_eq_waitTurns {processName : Option String} : ∀ {rounds : List (Round ProcessChange)},
    (∀ e ∈ (rounds.map (·.elapsed)).takeWhile (· ≤ duration), duration - e < 2 ^ 31) →
      waitLoop processName duration rounds = waitTurns processName duration rounds
  | [], _ => rfl
  | round :: rounds, hfits => by
    rw [waitLoop, waitTurns, remainingMillis]
    by_cases hexpired : round.elapsed ≤ duration
    · rw [List.map_cons, List.takeWhile_cons_of_pos (by simpa using hexpired)] at hfits
      obtain ⟨hfirst, hrest⟩ := List.forall_mem_cons.mp hfits
      rw [if_pos hexpired, if_pos hexpired, ← waitLoop_eq_waitTurns hrest]
      dsimp only
      rw [tryI32_timeLeft hfirst]
      rfl
    · rw [if_neg hexpired, if_neg hexpired]

/-- The time left is greatest at the first reading. -/
theorem timesLeft_fit (hmono : readings.Pairwise (· ≤ ·)) (hfirst : ∀ e ∈ readings.head?, duration - e < 2 ^ 31) :
    ∀ e ∈ readings.takeWhile (· ≤ duration), duration - e < 2 ^ 31 := by
  intro e he
  have hmem := (List.takeWhile_prefix _).subset he
  cases readings with
  | nil => cases hmem
  | cons first readings =>
    have hle : first ≤ e := by
      rcases List.mem_cons.mp hmem with rfl | hmem
      · exact le_refl _
      · exact (List.pairwise_cons.mp hmono).1 e hmem
    have := hfirst first rfl
    omega

/-- A first poll that fails is not reached when its timeout does not fit. -/
theorem fits_of_pollLoop_eq {first : Nat}
    (h : pollLoop callTimestampHandler quietEnv someTask "" duration
        (⟨first, .error .utf8⟩ :: readings.map (⟨·, .error .utf8⟩)) =
      pollTurns callTimestampHandler quietEnv someTask "" duration
        (⟨first, .error .utf8⟩ :: readings.map (⟨·, .error .utf8⟩))) :
    duration - first < 2 ^ 31 := by
  by_contra hlong
  have hbefore : first ≤ duration := by omega
  have herror : tryI32 (duration - first : Nat) = .error .tryFromInt := if_neg (by omega)
  have hrun := congrArg (fun x : Handling Unit CallTimestamp Bool => x.run ⟨(), [], []⟩) h
  rw [pollLoop, pollTurns, remainingMillis, if_pos hbefore, if_pos hbefore] at hrun
  dsimp only at hrun
  rw [herror] at hrun
  cases hrun

/-- At readings that do not go back, the loops work exactly when the time left at the first one fits the timeout. -/
theorem pollsThroughout_iff (hmono : readings.Pairwise (· ≤ ·)) :
    PollsThroughout duration readings ↔ ∀ e ∈ readings.head?, duration - e < 2 ^ 31 := by
  constructor
  · intro h e he
    obtain ⟨readings, rfl⟩ := List.head?_eq_some_iff.mp he
    exact fits_of_pollLoop_eq (h.pollLoop _ _ callTimestampHandler quietEnv someTask ""
      (⟨e, .error .utf8⟩ :: readings.map (⟨·, .error .utf8⟩)) (by simp [Function.comp_def]))
  · intro hfirst
    have hfits := timesLeft_fit hmono hfirst
    refine ⟨fun e he => ?_, ?_, ?_⟩
    · have hlt := hfits e he
      have hnonneg := Int.natCast_nonneg (duration - e)
      have htimeout : (timeoutAt duration e).toInt = (duration - e : Nat) :=
        Int32.toInt_ofInt_of_le (by omega) (by omega)
      rw [htimeout]
      exact ⟨hnonneg, le_refl _⟩
    · rintro H T h env task mapPath rounds rfl
      exact pollLoop_eq_pollTurns hfits
    · rintro processName rounds rfl
      exact waitLoop_eq_waitTurns hfits

end Loops

/-! ### The duration of a task -/

/-- A duration in seconds, converted as for both loops, is polled for throughout exactly when the milliseconds left
    at the first reading fit the timeout. -/
theorem accepted_duration_polls_iff {durationSeconds : Int32} {duration : UInt64} {readings : List Nat}
    (hduration : tryU64 durationSeconds.toInt = .ok duration) (hmono : readings.Pairwise (· ≤ ·)) :
    PollsThroughout (1000 * duration.toNat) readings ↔
      ∀ e ∈ readings.head?, 1000 * durationSeconds.toInt - e < 2 ^ 31 := by
  have hvalue := tryU64_eq_ok.mp hduration
  rw [pollsThroughout_iff hmono]
  refine forall₂_congr fun e _ => ?_
  omega

theorem one_second_polls : PollsThroughout 1000 [0, 400, 1001] := by
  have hduration : tryU64 (1 : Int32).toInt = .ok 1 := rfl
  refine (accepted_duration_polls_iff hduration (by decide)).mpr ?_
  intro e he
  obtain rfl := Option.some.inj he
  decide

/-- A task of twenty-five days. -/
def longTask : UprobestatsConfig where
  tasks := [{ targetProcessName := some "system_server", durationSeconds := some 2147484, targetProcessSelection := some 1 }]

/-- Both loops fail before their first poll with a duration that the resolver accepts. -/
theorem not_pollsThroughout_of_longTask :
    (∃ task w, (resolveSingleTask (quietDevice longTask) longTask).run { interfaces := .empty } = .ok task w ∧
      task.durationSeconds = 2147484) ∧
    tryU64 (2147484 : Int32).toInt = .ok 2147484 ∧
    (pollLoopGeneric callTimestampHandler quietEnv someTask callTimestampHandler.mapPath (1000 * 2147484)
      [⟨0, .ok []⟩]).run { handler := () } = .error .tryFromInt { handler := () } ∧
    (waitLoop none (1000 * 2147484) [⟨0, .ok []⟩]).run { interfaces := .empty } =
      .error .tryFromInt { interfaces := .empty } :=
  ⟨⟨_, _, rfl, rfl⟩, rfl, rfl, rfl⟩

end UprobeStats
