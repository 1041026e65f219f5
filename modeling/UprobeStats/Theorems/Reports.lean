import UprobeStats.Theorems.PollLoop
import Mathlib.Data.List.TakeWhile

/-! What a monitor reports. A handler that logs takes its records one by one, so over all its turns the loop has
    logged what the records before the first that it does not take come to. -/

namespace UprobeStats
open Rust Effect

/-! ### What is written -/

def Call.atom? : Call → Option Atom
  | .statsWrite atom => some atom
  | _ => none

/-- The atoms that a session has asked to be written. The device may have refused the last one. -/
def Session.atoms {H T : Type} (s : Session H T) : List Atom := s.calls.filterMap Call.atom?

def Call.statsEvent? : Call → Option StatsEvent
  | .statsEvent event => some event
  | _ => none

def Session.statsEvents {H T : Type} (s : Session H T) : List StatsEvent := s.calls.filterMap Call.statsEvent?

/-! ### Handlers that log -/

/-- The handler logs its events for a record that it takes, and fails on any other. -/
structure Handler.Logs {H T E : Type} (h : Handler H T) (env : Env) (logged : Session H T → List E)
    (takes : Task → T → Bool) (events : Task → T → List E) : Prop where
  onItem_ok : ∀ task item s, takes task.task item = true →
    ∃ t, (h.onItem env task item).run s = .ok ⟨⟩ t ∧ logged t = logged s ++ events task.task item
  onItem_error : ∀ task item s, takes task.task item = false → ∃ e, (h.onItem env task item).run s = .error e s
  onFinished : ∀ s, (h.onFinished env).run s = .ok ⟨⟩ s
  logged_handed : ∀ s xs, logged { s with handed := xs } = logged s
  logged_poll : ∀ s mapPath timeout,
    logged { s with calls := s.calls ++ [.pollRingBuf mapPath timeout] } = logged s
  logged_start : logged { handler := h.default } = []

section Run
variable {H T E : Type} {h : Handler H T} {env : Env} {logged : Session H T → List E} {takes : Task → T → Bool}
  {events : Task → T → List E} (task : ResolvedTask)

theorem logs_forM_handItem (hl : h.Logs env logged takes events) : ∀ (items : List T) (s : Session H T),
    logged (after ((items.forM (handItem h env task)).run s)) =
      logged s ++ (items.takeWhile (takes task.task)).flatMap (events task.task) ∧
    isOk ((items.forM (handItem h env task)).run s) = items.all (takes task.task)
  | [], s => ⟨by simp, rfl⟩
  | item :: items, s => by
    have hrun : ((item :: items).forM (handItem h env task)).run s =
        (h.onItem env task item >>= fun _ => items.forM (handItem h env task)).run
          { s with handed := s.handed ++ [item] } := by
      rw [forM_cons, handItem, bind_assoc, EStateM.run_bind, EStateM.run_modify]
    rw [hrun, EStateM.run_bind]
    cases htakes : takes task.task item with
    | false =>
      obtain ⟨e, he⟩ := hl.onItem_error task item { s with handed := s.handed ++ [item] } htakes
      rw [he]
      exact ⟨by simp [htakes, hl.logged_handed], by simp [htakes, isOk]⟩
    | true =>
      obtain ⟨t, ht, hlogged⟩ := hl.onItem_ok task item { s with handed := s.handed ++ [item] } htakes
      obtain ⟨hrest, hok⟩ := logs_forM_handItem hl items t
      rw [ht]
      refine ⟨?_, by simpa [htakes] using hok⟩
      dsimp only
      rw [hrest, hlogged, hl.logged_handed, List.takeWhile_cons_of_pos htakes, List.flatMap_cons, List.append_assoc]

/-- Over its turns the loop logs as it would over all that it polls in them. -/
theorem logs_pollLoop (hl : h.Logs env logged takes events) (mapPath : String) {duration : Nat} :
    ∀ (turns : List (Turn T)) (s : Session H T), (∀ x ∈ beforeExpiry duration turns, duration - x.elapsed < 2 ^ 31) →
    logged (after ((pollLoop h env task mapPath duration (turns.map Turn.round)).run s)) = logged s ++
      (((beforeExpiry duration turns).flatMap (·.items)).takeWhile (takes task.task)).flatMap (events task.task) ∧
    isOk ((pollLoop h env task mapPath duration (turns.map Turn.round)).run s) =
      ((beforeExpiry duration turns).flatMap (·.items)).all (takes task.task)
  | [], s, _ => ⟨by simp [pollLoop, beforeExpiry], by simp [pollLoop, beforeExpiry, isOk]⟩
  | x :: turns, s, hfits => by
    by_cases hx : x.elapsed ≤ duration
    · have hbefore : beforeExpiry duration (x :: turns) = x :: beforeExpiry duration turns := by
        simp [beforeExpiry, hx]
      rw [hbefore] at hfits ⊢
      obtain ⟨timeout, htimeout⟩ := tryI32_remaining (hfits x (List.mem_cons_self ..))
      obtain ⟨hlogged, hok⟩ := logs_forM_handItem task hl x.items
        { s with calls := s.calls ++ [.pollRingBuf mapPath timeout] }
      have hrun : (pollLoop h env task mapPath duration ((x :: turns).map Turn.round)).run s =
          (x.items.forM (handItem h env task) >>= fun _ =>
            pollLoop h env task mapPath duration (turns.map Turn.round)).run
              { s with calls := s.calls ++ [.pollRingBuf mapPath timeout] } := by
        simp only [List.map_cons, pollLoop, Turn.round, remainingMillis, hx, if_true]
        rw [run_lift_bind_of_ok htimeout]
        rfl
      rw [hl.logged_poll] at hlogged
      rw [hrun, List.flatMap_cons, EStateM.run_bind, List.all_append]
      cases hitems : (x.items.forM (handItem h env task)).run
          { s with calls := s.calls ++ [.pollRingBuf mapPath timeout] } with
      | error e t =>
        rw [hitems] at hlogged hok
        have hstops : (x.items.takeWhile (takes task.task)).length ≠ x.items.length := by
          intro hlength
          have hall := List.takeWhile_eq_self_iff.mp ((List.takeWhile_prefix _).eq_of_length hlength)
          rw [List.all_eq_true.mpr hall] at hok
          cases hok
        rw [List.takeWhile_append, if_neg hstops, ← hok]
        exact ⟨hlogged, rfl⟩
      | ok u t =>
        rw [hitems] at hlogged hok
        have hall : ∀ r ∈ x.items, takes task.task r = true := List.all_eq_true.mp hok.symm
        obtain ⟨hrest, hok'⟩ := logs_pollLoop hl mapPath turns t fun y hy => hfits y (List.mem_cons_of_mem _ hy)
        rw [List.takeWhile_append_of_pos hall, ← hok]
        refine ⟨?_, hok'⟩
        dsimp only
        rw [after_ok, List.takeWhile_eq_self_iff.mpr hall] at hlogged
        rw [hrest, hlogged, List.flatMap_append, List.append_assoc]
    · have hbefore : beforeExpiry duration (x :: turns) = [] := by simp [beforeExpiry, hx]
      have hrun : (pollLoop h env task mapPath duration ((x :: turns).map Turn.round)).run s = .ok true s := by
        simp only [List.map_cons, pollLoop, Turn.round, remainingMillis, hx, if_false]
        rw [EStateM.run_bind, hl.onFinished]
        rfl
      rw [hrun, hbefore]
      exact ⟨by simp, rfl⟩

theorem logs_pollLoopGeneric (hl : h.Logs env logged takes events) {duration : Nat} {turns : List (Turn T)}
    (hfits : ∀ x ∈ beforeExpiry duration turns, duration - x.elapsed < 2 ^ 31) :
    let polled := (beforeExpiry duration turns).flatMap (·.items)
    let result := (pollLoopGeneric h env task h.mapPath duration (turns.map Turn.round)).run { handler := h.default }
    logged (after result) = (polled.takeWhile (takes task.task)).flatMap (events task.task) ∧
    isOk result = polled.all (takes task.task) := by
  have hrun : (pollLoopGeneric h env task h.mapPath duration (turns.map Turn.round)).run { handler := h.default } =
      (pollLoop h env task h.mapPath duration (turns.map Turn.round)).run { handler := h.default } := by
    simp [pollLoopGeneric, modifyHandler]
  have hlogs := logs_pollLoop task hl h.mapPath turns { handler := h.default } hfits
  rw [hl.logged_start, List.nil_append] at hlogs
  dsimp only
  rw [hrun]
  exact hlogs

end Run

/-! ### What firings write -/

/-- The polls of a thread whose turns are the firings since the turn before. -/
def recordedBy {F T : Type} (records : F → List T) (turns : List (Turn F)) : List (Turn T) :=
  turns.map fun x => ⟨x.elapsed, x.items.flatMap records⟩

section Firings
variable {F T : Type} {records : F → List T} {duration : Nat} {turns : List (Turn F)}

theorem beforeExpiry_recordedBy :
    beforeExpiry duration (recordedBy records turns) = recordedBy records (beforeExpiry duration turns) := by
  simp [beforeExpiry, recordedBy, List.takeWhile_map, Function.comp_def]

theorem items_recordedBy : (recordedBy records turns).flatMap (·.items) = (turns.flatMap (·.items)).flatMap records := by
  rw [recordedBy, List.flatMap_map, List.flatMap_assoc]

theorem flatMap_filter {E : Type} {reserved : F → Bool} {content : F → List E} {written : F → List E}
    (hwritten : ∀ f, written f = if reserved f then content f else []) (firings : List F) :
    firings.flatMap written = (firings.filter reserved).flatMap content := by
  induction firings with
  | nil => rfl
  | cons f firings ih =>
    rw [List.flatMap_cons, ih, hwritten, List.filter_cons]
    split <;> rfl

/-- The records of firings that each write one if there is room for it. -/
theorem flatMap_records {reserved : F → Bool} {record : F → T}
    (hrecords : ∀ f, records f = if reserved f then [record f] else []) (firings : List F) :
    firings.flatMap records = (firings.filter reserved).map record := by
  rw [flatMap_filter hrecords, ← List.map_eq_flatMap]

/-- What the monitor has logged of what the firings before its timer expires have written. -/
theorem logs_recordedBy {H E : Type} {h : Handler H T} {env : Env} {logged : Session H T → List E}
    {takes : Task → T → Bool} {events : Task → T → List E} (hl : h.Logs env logged takes events) (task : ResolvedTask)
    (hfits : ∀ x ∈ beforeExpiry duration turns, duration - x.elapsed < 2 ^ 31) :
    let written := ((beforeExpiry duration turns).flatMap (·.items)).flatMap records
    let result := (pollLoopGeneric h env task h.mapPath duration ((recordedBy records turns).map Turn.round)).run
      { handler := h.default }
    logged (after result) = (written.takeWhile (takes task.task)).flatMap (events task.task) ∧
    isOk result = written.all (takes task.task) := by
  have hfits' : ∀ x ∈ beforeExpiry duration (recordedBy records turns), duration - x.elapsed < 2 ^ 31 := by
    rw [beforeExpiry_recordedBy, recordedBy]
    exact List.forall_mem_map.mpr hfits
  have hlogs := logs_pollLoopGeneric task hl hfits'
  rwa [beforeExpiry_recordedBy, items_recordedBy] at hlogs

/-- A monitor that takes every record reports each firing that found room, and does not fail. -/
theorem logs_reserved {H E : Type} {h : Handler H T} {env : Env} {logged : Session H T → List E}
    {takes : Task → T → Bool} {events : Task → T → List E} (hl : h.Logs env logged takes events) (task : ResolvedTask)
    {reserved : F → Bool} {content : F → List E} (hfull : ∀ f, reserved f = false → records f = [])
    (hwrites : ∀ f, reserved f = true →
      ∃ r, records f = [r] ∧ takes task.task r = true ∧ events task.task r = content f)
    (hfits : ∀ x ∈ beforeExpiry duration turns, duration - x.elapsed < 2 ^ 31) :
    let firings := ((beforeExpiry duration turns).flatMap (·.items)).filter reserved
    let result := (pollLoopGeneric h env task h.mapPath duration ((recordedBy records turns).map Turn.round)).run
      { handler := h.default }
    logged (after result) = firings.flatMap content ∧ isOk result = true := by
  have htakes : ∀ (firings : List F), ∀ r ∈ firings.flatMap records, takes task.task r = true := by
    intro firings r hr
    obtain ⟨f, -, hr⟩ := List.mem_flatMap.mp hr
    cases hreserved : reserved f with
    | false =>
      rw [hfull f hreserved] at hr
      cases hr
    | true =>
      obtain ⟨r', hrecord, htakes, -⟩ := hwrites f hreserved
      rw [hrecord, List.mem_singleton] at hr
      rwa [hr]
  have hevents (f : F) : (records f).flatMap (events task.task) = if reserved f then content f else [] := by
    cases hreserved : reserved f with
    | false =>
      rw [hfull f hreserved]
      rfl
    | true =>
      obtain ⟨r, hrecord, -, hcontent⟩ := hwrites f hreserved
      rw [hrecord, List.flatMap_singleton, hcontent]
      rfl
  obtain ⟨hlogged, hok⟩ := logs_recordedBy hl task hfits
  rw [List.takeWhile_eq_self_iff.mpr (htakes _), List.flatMap_assoc, flatMap_filter hevents] at hlogged
  exact ⟨hlogged, hok.trans (List.all_eq_true.mpr (htakes _))⟩

end Firings

end UprobeStats
