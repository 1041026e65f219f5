import UprobeStats.Theorems.PollLoop
import UprobeStats.Theorems.Requests

/-! The two ways of waiting for an app to start. The observer is told of each start, the loop over the ring takes
    them in batches; both stop at the first start that fits. -/

namespace UprobeStats
open Rust Effect Text

/-! ### Starts -/

/-- A start of an app, as both ways can report it. -/
structure StartEvent.Reportable (e : StartEvent) : Prop where
  pid : 0 < e.pid.toInt
  uid : e.processUid.toNat < 2 ^ 31
  nulFree : 0 ∉ utf8 e.processName
  short : (utf8 e.processName).length ≤ 255

/-- The process of the first start with the target name, or of the first one if there is no target. -/
def firstStart (target : Option String) (events : List StartEvent) : Option ResolvedProcess :=
  (events.find? fun e => target = none ∨ target = some e.processName).map fun e =>
    ⟨e.pid, e.processUid.toInt32, e.processName⟩

/-- The record of a start, over what its slot in the ring held before. -/
def processChangeOf (x : StartEvent × Chars 256) : ProcessChange :=
  ⟨x.1.pid, x.1.processUid.toInt32, x.2.write (utf8 x.1.processName ++ [0])⟩

section Starts
variable {target : Option String} {e : StartEvent}

theorem onProcessStarted_eq : AppStartObserver.onProcessStarted target e =
    if target = none ∨ target = some e.processName then some ⟨e.pid, e.processUid.toInt32, e.processName⟩ else none := by
  cases target with
  | none => rfl
  | some targetName =>
    rw [AppStartObserver.onProcessStarted]
    by_cases hname : targetName = e.processName <;> simp [hname]

theorem findSome?_onProcessStarted (events : List StartEvent) :
    events.findSome? (AppStartObserver.onProcessStarted target) = firstStart target events := by
  induction events with
  | nil => rfl
  | cons e events ih =>
    rw [List.findSome?_cons, onProcessStarted_eq, firstStart, List.find?_cons]
    by_cases hfits : target = none ∨ target = some e.processName
    · rw [if_pos hfits, decide_eq_true hfits]
      rfl
    · rw [if_neg hfits, decide_eq_false hfits]
      exact ih

theorem firstStart_append (events events' : List StartEvent) :
    firstStart target (events ++ events') = (firstStart target events).or (firstStart target events') := by
  rw [← findSome?_onProcessStarted, List.findSome?_append, findSome?_onProcessStarted, findSome?_onProcessStarted]

theorem acceptChange_processChangeOf (he : e.Reportable) (slot : Chars 256) :
    acceptChange target (processChangeOf (e, slot)) = .ok (AppStartObserver.onProcessStarted target e) := by
  have hshort := he.short
  have hbytes : (slot.write (utf8 e.processName ++ [0])).bytes =
      utf8 e.processName ++ 0 :: slot.bytes.drop ((utf8 e.processName).length + 1) := by
    rw [Chars.write_bytes (by simp; omega), List.append_assoc, List.singleton_append, List.length_append,
      List.length_singleton]
  have hname : bytesAsStr (processChangeOf (e, slot)).processName = .ok e.processName := by
    rw [bytesAsStr_eq_ok]
    exact (congrArg untilNul hbytes).trans (untilNul_append_zero he.nulFree)
  have hpid : ¬(processChangeOf (e, slot)).pid ≤ 0 := by
    rw [Int32.le_iff_toInt_le]
    exact not_le.mpr he.pid
  rw [acceptChange, hname, ok_andThen, onProcessStarted_eq, if_neg hpid]
  split <;> rfl

theorem acceptChanges_processChangeOf : ∀ {items : List (StartEvent × Chars 256)},
    (∀ x ∈ items, x.1.Reportable) →
    acceptChanges target (items.map processChangeOf) = .ok (firstStart target (items.map Prod.fst))
  | [], _ => rfl
  | (e, slot) :: items, h => by
    obtain ⟨he, hitems⟩ := List.forall_mem_cons.mp h
    rw [List.map_cons, List.map_cons, acceptChanges, acceptChange_processChangeOf he slot, ok_andThen,
      acceptChanges_processChangeOf hitems, ← List.singleton_append, firstStart_append, ← findSome?_onProcessStarted [e],
      List.findSome?_singleton]
    cases AppStartObserver.onProcessStarted target e <;> rfl

end Starts

/-! ### The loop -/

/-- The turns of a loop that polls these starts. -/
def startRounds (turns : List (Turn (StartEvent × Chars 256))) : List (Round ProcessChange) :=
  turns.map fun x => ⟨x.elapsed, .ok (x.items.map processChangeOf)⟩

/-- What the ring gave to the loop before its timer expired. -/
def polledStarts (duration : Nat) (turns : List (Turn (StartEvent × Chars 256))) : List StartEvent :=
  (beforeExpiry duration turns).flatMap fun x => x.items.map Prod.fst

theorem waitLoop_startRounds {target : Option String} {duration : Nat} (hfits : duration < 2 ^ 31) :
    ∀ {turns : List (Turn (StartEvent × Chars 256))} {w : World}, (∀ e ∈ polledStarts duration turns, e.Reportable) →
      value? ((waitLoop target duration (startRounds turns)).run w) = firstStart target (polledStarts duration turns)
  | [], _, _ => rfl
  | x :: turns, w, h => by
    by_cases hexpired : x.elapsed ≤ duration
    · have hpolled : polledStarts duration (x :: turns) = x.items.map Prod.fst ++ polledStarts duration turns := by
        simp [polledStarts, beforeExpiry, hexpired]
      rw [hpolled] at h ⊢
      obtain ⟨hitems, hturns⟩ := List.forall_mem_append.mp h
      obtain ⟨timeout, htimeout⟩ := tryI32_remaining (show duration - x.elapsed < 2 ^ 31 by omega)
      have haccept : acceptChanges target (x.items.map processChangeOf) = .ok (firstStart target (x.items.map Prod.fst)) :=
        acceptChanges_processChangeOf fun y hy => hitems y.1 (List.mem_map_of_mem hy)
      rw [startRounds, List.map_cons, waitLoop, remainingMillis, if_pos hexpired, firstStart_append]
      dsimp only
      rw [run_lift_bind_of_ok htimeout]
      refine (congrArg value? (run_ask_bind_of_ok (a := x.items.map processChangeOf) ?_)).trans ?_
      · rfl
      rw [run_lift_bind_of_ok haccept]
      cases firstStart target (x.items.map Prod.fst) with
      | none =>
        rw [Option.none_or]
        exact waitLoop_startRounds hfits hturns
      | some resolved => rfl
    · have hpolled : polledStarts duration (x :: turns) = [] := by simp [polledStarts, beforeExpiry, hexpired]
      rw [hpolled, startRounds, List.map_cons, waitLoop, remainingMillis, if_neg hexpired]
      rfl

/-! ### Both ways -/

/-- What the wait does before its loop: it attaches the program that reports the starts. -/
def attachAppStart (dev : Device) : Prog PUnit := do
  let systemServerPid ← getPid dev "system_server"
  let systemServerPid ← lift (okOr systemServerPid "failed to get system server pid")
  let (offsets, bpfProgName) ← getAppStartOffsets dev
  let offset ← lift (tryI32 offsets.methodOffset.toNat)
  bpfPerfEventOpen dev none offsets.containerPath offset systemServerPid (prefixBpf bpfProgName)

theorem waitForAppStartUprobe_eq {dev : Device} {target : Option String} {duration : Nat} {w w' : World} {u : PUnit}
    (hattach : (attachAppStart dev).run w = .ok u w') :
    (waitForAppStartUprobe dev target duration).run w = (waitLoop target duration (dev.startPolls w'.requests)).run w' := by
  have hsplit : waitForAppStartUprobe dev target duration = attachAppStart dev >>= fun _ => get >>= fun w =>
      waitLoop target duration (dev.startPolls w.requests) := by
    simp only [waitForAppStartUprobe, attachAppStart, bind_assoc]
  rw [hsplit, EStateM.run_bind, hattach]
  rfl

theorem waitForAppStartObserver_eq {dev : Device} {target : Option String} {events : List StartEvent} {w : World}
    (hregister : dev.registerProcessObserver w.requests = .ok ())
    (hevents : dev.startEvents (w.requests ++ [.registerProcessObserver]) = events) :
    value? ((waitForAppStartObserver dev target).run w) = firstStart target events := by
  rw [waitForAppStartObserver, run_ask_bind_of_ok hregister, run_get_bind, hevents, findSome?_onProcessStarted, run_lift]
  cases firstStart target events <;> rfl

/-- Told of the same starts, both ways return the process of the first one that fits, or none. -/
theorem app_start_waits_agree {dev : Device} {target : Option String} {duration : Nat} {events : List StartEvent}
    {turns : List (Turn (StartEvent × Chars 256))} {w v v' : World} {u : PUnit} (hfits : duration < 2 ^ 31)
    (hevents : ∀ e ∈ events, e.Reportable) (hregister : dev.registerProcessObserver w.requests = .ok ())
    (hobserved : dev.startEvents (w.requests ++ [.registerProcessObserver]) = events)
    (hattach : (attachAppStart dev).run v = .ok u v') (hrounds : dev.startPolls v'.requests = startRounds turns)
    (hpolled : polledStarts duration turns = events) :
    value? ((waitForAppStartObserver dev target).run w) = firstStart target events ∧
      value? ((waitForAppStartUprobe dev target duration).run v) = firstStart target events ∧
      ∀ resolved, firstStart target events = some resolved → ∃ e ∈ events, (target = none ∨ target = some e.processName) ∧
        resolved.pid = e.pid ∧ resolved.uid.toInt = e.processUid.toNat ∧ resolved.name = e.processName := by
  subst hpolled
  refine ⟨waitForAppStartObserver_eq hregister hobserved, ?_, fun resolved hresolved => ?_⟩
  · rw [waitForAppStartUprobe_eq hattach, hrounds]
    exact waitLoop_startRounds hfits hevents
  · obtain ⟨e, he, rfl⟩ := Option.map_eq_some_iff.mp hresolved
    have hmem := List.mem_of_find?_eq_some he
    have hfits := List.find?_some he
    refine ⟨e, hmem, of_decide_eq_true hfits, rfl, ?_, rfl⟩
    have huid := (hevents e hmem).uid
    have hlt : (e.processUid.toInt32.toInt : Int) = e.processUid.toBitVec.toInt := rfl
    rw [hlt, BitVec.toInt_eq_toNat_of_lt]
    · rfl
    · have : e.processUid.toBitVec.toNat = e.processUid.toNat := rfl
      omega

/-! ### Two starts -/

def startOne : StartEvent := ⟨200, 10001, 10001, "com.one", "com.one"⟩
def startTwo : StartEvent := ⟨300, 10002, 10002, "com.two", "com.two"⟩

/-- The starts reach the loop in two batches, with an empty one between them. -/
def twoBatches : List (Turn (StartEvent × Chars 256)) :=
  [⟨0, [(startOne, .zeros 256)]⟩, ⟨5, []⟩, ⟨10, [(startTwo, .zeros 256)]⟩, ⟨1001, []⟩]

def startingDevice : Device :=
  { quietDevice (oneTask []) with
    startEvents := fun _ => [startOne, startTwo]
    startPolls := fun _ => startRounds twoBatches }

theorem app_start_waits_agree_on_two : value? ((waitForAppStartObserver startingDevice (some "com.two")).run
      { interfaces := .empty }) = some ⟨300, 10002, "com.two"⟩ ∧
    value? ((waitForAppStartUprobe startingDevice (some "com.two") 1000).run { interfaces := .empty }) =
      some ⟨300, 10002, "com.two"⟩ := by
  have hevents : ∀ e ∈ [startOne, startTwo], e.Reportable := by
    intro e he
    rcases List.mem_pair.mp he with rfl | rfl
    · exact ⟨by decide, by decide, by decide +kernel, by decide +kernel⟩
    · exact ⟨by decide, by decide, by decide +kernel, by decide +kernel⟩
  have hattach : isOk ((attachAppStart startingDevice).run { interfaces := .empty }) = true := by decide +kernel
  have hfits : 1000 < 2 ^ 31 := by decide
  have hpolled : polledStarts 1000 twoBatches = [startOne, startTwo] := rfl
  have h := @app_start_waits_agree startingDevice (some "com.two") _ _ _ { interfaces := .empty } _ _ _ hfits hevents
    rfl rfl (eq_ok_of_isOk hattach) rfl hpolled
  exact ⟨h.1, h.2.1⟩

end UprobeStats
