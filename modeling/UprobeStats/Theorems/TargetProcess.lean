import UprobeStats.Theorems.Requests

/-! The identity of the target process. `get_pid` accepts a command line that only starts with the name it
    looks for, and the wait for a start without a name accepts every start. -/

namespace UprobeStats
open Rust Effect Text

/-! ### Names of processes -/

def ownName (cmdline : List UInt8) : List UInt8 := cmdline.takeWhile (· ≠ 0)

def ProcEntry.IsProcess (entry : ProcEntry) (pid : Int32) (name : String) : Prop :=
  entry.number? = some pid ∧ ∃ cmdline, entry.cmdline = some cmdline ∧ ownName cmdline = utf8 name

def Running (snapshot : Option (List (Option ProcEntry))) (pid : Int32) (name : String) : Prop :=
  ∃ entries entry, snapshot = some entries ∧ some entry ∈ entries ∧ entry.IsProcess pid name

def Started (dev : Device) (pid : Int32) (name : String) : Prop :=
  (∃ requests, ∃ e ∈ dev.startEvents requests, e.pid = pid ∧ e.processName = name) ∨
    ∃ requests, ∃ round ∈ dev.startPolls requests, ∃ changes, round.polled = .ok changes ∧
      ∃ change ∈ changes, change.pid = pid ∧ bytesAsStr change.processName = .ok name

/-! ### The search -/

section Search
variable {name : String} {pid : Int32}

/-- The search returns the pid of the first entry that gives one, if each entry before it can be read. -/
theorem findPid_eq_some_iff {entries : List (Option ProcEntry)} : findPid name entries = some pid ↔
    ∃ (before : List ProcEntry) (entry : ProcEntry) (after : List (Option ProcEntry)),
      entries = before.map some ++ some entry :: after ∧
        (∀ e ∈ before, e.pid? name = none) ∧ entry.pid? name = some pid := by
  constructor
  · intro h
    induction entries with
    | nil => cases h
    | cons e entries ih =>
      cases e with
      | none => cases h
      | some e =>
        rw [findPid] at h
        split at h
        · rename_i pid' hpid
          obtain rfl := Option.some.inj h
          exact ⟨[], e, entries, rfl, by simp, hpid⟩
        · rename_i hnone
          obtain ⟨before, entry, after, rfl, hbefore, hpid⟩ := ih h
          exact ⟨e :: before, entry, after, rfl, List.forall_mem_cons.mpr ⟨hnone, hbefore⟩, hpid⟩
  · rintro ⟨before, entry, after, rfl, hbefore, hpid⟩
    induction before with
    | nil => simp [findPid, hpid]
    | cons e before ih =>
      obtain ⟨hnone, hbefore⟩ := List.forall_mem_cons.mp hbefore
      rw [List.map_cons, List.cons_append, findPid, hnone]
      exact ih hbefore

theorem getPid_run {dev : Device} {w : World} :
    (getPid dev name).run w = .ok ((dev.proc w.requests).bind (findPid name)) w := rfl

end Search

/-! ### Starts -/

section Starts
variable {dev : Device} {name : String} {p : ResolvedProcess}

theorem onProcessStarted_eq_some {e : StartEvent} (h : AppStartObserver.onProcessStarted (some name) e = some p) :
    e.pid = p.pid ∧ e.processName = name := by
  unfold AppStartObserver.onProcessStarted at h
  dsimp only at h
  split at h
  · cases h
  · rename_i hname
    obtain rfl := Option.some.inj h
    exact ⟨rfl, (not_not.mp hname).symm⟩

theorem acceptChange_eq_some {change : ProcessChange} (h : acceptChange (some name) change = .ok (some p)) :
    change.pid = p.pid ∧ bytesAsStr change.processName = .ok name := by
  obtain ⟨resultName, hname, h⟩ := andThen_eq_ok.mp h
  split at h
  · rename_i haccept
    split at h
    · cases h
    · cases h
      obtain hnone | hsome := haccept
      · cases hnone
      · exact ⟨rfl, by rw [hname, Option.some.inj hsome]⟩
  · cases h

theorem acceptChanges_eq_some : ∀ {changes : List ProcessChange},
    acceptChanges (some name) changes = .ok (some p) →
      ∃ change ∈ changes, change.pid = p.pid ∧ bytesAsStr change.processName = .ok name
  | [], h => by cases h
  | change :: changes, h => by
    obtain ⟨result, haccept, h⟩ := andThen_eq_ok.mp h
    cases result with
    | some resolved =>
      cases h
      exact ⟨change, List.mem_cons_self .., acceptChange_eq_some haccept⟩
    | none =>
      obtain ⟨change', hmem, hchange⟩ := acceptChanges_eq_some h
      exact ⟨change', List.mem_cons_of_mem _ hmem, hchange⟩

theorem waitLoop_ok {duration : Nat} : ∀ {rounds : List (Round ProcessChange)} {w w' : World},
    (waitLoop (some name) duration rounds).run w = .ok p w' →
      ∃ round ∈ rounds, ∃ changes, round.polled = .ok changes ∧
        ∃ change ∈ changes, change.pid = p.pid ∧ bytesAsStr change.processName = .ok name
  | [], _, _, h => by cases h
  | round :: rounds, w, w', h => by
    unfold waitLoop at h
    split at h
    · cases h
    · obtain ⟨timeout, -, h⟩ := bind_lift_eq_ok.mp h
      obtain ⟨changes, v, hpoll, h⟩ := bind_eq_ok.mp h
      obtain ⟨hpolled, -⟩ := ask_eq_ok.mp hpoll
      obtain ⟨result, haccept, h⟩ := bind_lift_eq_ok.mp h
      cases result with
      | some resolved =>
        cases h
        exact ⟨round, List.mem_cons_self .., changes, hpolled, acceptChanges_eq_some haccept⟩
      | none =>
        obtain ⟨round', hmem, hround⟩ := waitLoop_ok h
        exact ⟨round', List.mem_cons_of_mem _ hmem, hround⟩

/-- The wait for the start of a process with a name returns one that was reported under that name. -/
theorem waitForAppStart_ok {duration : Nat} {w w' : World}
    (h : (waitForAppStart dev (some name) duration).run w = .ok p w') : Started dev p.pid name := by
  unfold waitForAppStart at h
  split at h
  · obtain ⟨_, v, -, h⟩ := bind_eq_ok.mp h
    rw [bind_get_eq_ok] at h
    obtain ⟨hfound, -⟩ := lift_eq_ok.mp h
    obtain ⟨e, hmem, he⟩ := List.exists_of_findSome?_eq_some (okOr_eq_ok.mp hfound)
    exact .inl ⟨v.requests, e, hmem, onProcessStarted_eq_some he⟩
  · obtain ⟨_, _, -, h⟩ := bind_eq_ok.mp h
    obtain ⟨_, -, h⟩ := bind_lift_eq_ok.mp h
    obtain ⟨_, _, -, h⟩ := bind_eq_ok.mp h
    obtain ⟨_, -, h⟩ := bind_lift_eq_ok.mp h
    obtain ⟨_, v, -, h⟩ := bind_eq_ok.mp h
    rw [bind_get_eq_ok] at h
    exact .inr ⟨v.requests, waitLoop_ok h⟩

end Starts

/-! ### The target -/

/-- The process is the one that the config names. -/
def Identified (dev : Device) (snapshot : Option (List (Option ProcEntry))) (targetProcessName : Option String)
    (selection : TargetProcessSelection) (pid : Int32) : Prop :=
  ∃ name, targetProcessName = some name ∧
    match selection with
    | .specificAppProcessOnStart => Started dev pid name
    | _ => Running snapshot pid name

/-- A name is configured where starts are waited for; and where running processes are searched, the first
    entry that the search accepts has a pid that belongs to a process of exactly that name. -/
def Identifies (snapshot : Option (List (Option ProcEntry))) (targetProcessName : Option String) :
    TargetProcessSelection → Prop
  | .specificAppProcessOnStart => targetProcessName.isSome
  | _ => ∀ (name : String) (before : List ProcEntry) (entry : ProcEntry) (after : List (Option ProcEntry)) (pid : Int32),
      targetProcessName = some name → snapshot = some (before.map some ++ some entry :: after) →
      (∀ e ∈ before, e.pid? name = none) → entry.pid? name = some pid → Running snapshot pid name

section Target
variable {dev : Device} {snapshot : Option (List (Option ProcEntry))} {targetProcessName : Option String}
  {selection : TargetProcessSelection}

theorem resolveRunning_eq_ok {duration : Nat} {p : ResolvedProcess} {w w' : World}
    (hselection : selection = .specificProcessName ∨ selection = .unknown) :
    (resolveProcess dev targetProcessName selection duration).run w = .ok p w' ↔
      ∃ name, targetProcessName = some name ∧ (dev.proc w.requests).bind (findPid name) = some p.pid ∧
        p = ⟨p.pid, 0, name⟩ ∧ w' = w := by
  have hrun : (resolveProcess dev targetProcessName selection duration).run w = (do
      let processName ← lift (okOr targetProcessName
        s!"Process name is required for selection type {selection.name}")
      let pid ← getPid dev processName
      let pid ← lift (okOr pid s!"Can't find pid for {processName}")
      pure ⟨pid, 0, processName⟩ : Prog ResolvedProcess).run w := by
    rcases hselection with rfl | rfl <;> rfl
  rw [hrun, bind_lift_eq_ok]
  simp only [okOr_eq_ok]
  refine exists_congr fun name => and_congr_right fun _ => ?_
  rw [EStateM.run_bind, getPid_run]
  dsimp only
  rw [bind_lift_eq_ok]
  simp only [okOr_eq_ok, pure_eq_ok]
  constructor
  · rintro ⟨pid, hpid, rfl, rfl⟩
    exact ⟨hpid, rfl, rfl⟩
  · rintro ⟨hpid, hp, rfl⟩
    exact ⟨p.pid, hpid, hp.symm, rfl⟩

/-- Whatever is resolved on such a snapshot is the process that the config names. -/
theorem Identifies.identified (h : Identifies snapshot targetProcessName selection)
    (hselection : selection ≠ .anyAppProcessOnStart) {duration : Nat} {p : ResolvedProcess} {w w' : World}
    (hproc : dev.proc w.requests = snapshot)
    (hok : (resolveProcess dev targetProcessName selection duration).run w = .ok p w') :
    Identified dev snapshot targetProcessName selection p.pid := by
  have hrunning (hrun : selection = .specificProcessName ∨ selection = .unknown)
      (hfirst : ∀ (name : String) (before : List ProcEntry) (entry : ProcEntry) (after : List (Option ProcEntry))
        (pid : Int32), targetProcessName = some name → snapshot = some (before.map some ++ some entry :: after) →
        (∀ e ∈ before, e.pid? name = none) → entry.pid? name = some pid → Running snapshot pid name) :
      ∃ name, targetProcessName = some name ∧ Running snapshot p.pid name := by
    obtain ⟨name, hname, hfind, -, -⟩ := (resolveRunning_eq_ok hrun).mp hok
    rw [hproc] at hfind
    obtain ⟨entries, hentries, hfind⟩ := Option.bind_eq_some_iff.mp hfind
    obtain ⟨before, entry, after, rfl, hbefore, hpid⟩ := findPid_eq_some_iff.mp hfind
    exact ⟨name, hname, hfirst name before entry after _ hname hentries hbefore hpid⟩
  cases selection with
  | anyAppProcessOnStart => exact absurd rfl hselection
  | specificProcessName => exact hrunning (.inl rfl) h
  | unknown => exact hrunning (.inr rfl) h
  | specificAppProcessOnStart =>
    obtain ⟨name, rfl⟩ := Option.isSome_iff_exists.mp h
    exact ⟨name, rfl, waitForAppStart_ok hok⟩

def snapshotDevice (snapshot : Option (List (Option ProcEntry))) : Device :=
  { quietDevice {} with
    flags := { allFlags with useProcessObserverApi := true }
    proc := fun _ => snapshot
    startEvents := fun _ => [⟨1234, 10001, 10001, "com.example", "com.example"⟩] }

/-- Every process that is resolved on a snapshot is the configured one exactly when a name is configured,
    where starts are waited for, and the first entry accepted has that very name, where they are not. -/
theorem identified_iff (hselection : selection ≠ .anyAppProcessOnStart) :
    (∀ dev duration p (w w' : World), dev.proc w.requests = snapshot →
      (resolveProcess dev targetProcessName selection duration).run w = .ok p w' →
      Identified dev snapshot targetProcessName selection p.pid) ↔
    Identifies snapshot targetProcessName selection := by
  refine ⟨fun h => ?_, fun h dev duration p w w' => h.identified hselection⟩
  have hrunning (hrun : selection = .specificProcessName ∨ selection = .unknown) (name : String)
      (before : List ProcEntry) (entry : ProcEntry) (after : List (Option ProcEntry)) (pid : Int32)
      (hname : targetProcessName = some name) (hsnapshot : snapshot = some (before.map some ++ some entry :: after))
      (hbefore : ∀ e ∈ before, e.pid? name = none) (hpid : entry.pid? name = some pid) :
      Running snapshot pid name := by
    have hfind : ((snapshotDevice snapshot).proc []).bind (findPid name) = some pid := by
      show snapshot.bind (findPid name) = some pid
      rw [hsnapshot]
      exact findPid_eq_some_iff.mpr ⟨before, entry, after, rfl, hbefore, hpid⟩
    obtain ⟨name', hname', hidentified⟩ := h (snapshotDevice snapshot) 0 ⟨pid, 0, name⟩ { interfaces := .empty }
      { interfaces := .empty } rfl ((resolveRunning_eq_ok hrun).mpr ⟨name, hname, hfind, rfl, rfl⟩)
    obtain rfl := Option.some.inj (hname.symm.trans hname')
    rcases hrun with rfl | rfl <;> exact hidentified
  cases selection with
  | anyAppProcessOnStart => exact absurd rfl hselection
  | specificProcessName => exact hrunning (.inl rfl)
  | unknown => exact hrunning (.inr rfl)
  | specificAppProcessOnStart =>
    cases targetProcessName with
    | some name => rfl
    | none =>
      obtain ⟨name, hname, -⟩ := h (snapshotDevice snapshot) 0 ⟨1234, 10001, "com.example"⟩ { interfaces := .empty }
        { interfaces := .empty, requests := [.registerProcessObserver] } rfl rfl
      cases hname

end Target

/-! ### Two processes -/

def twoProcesses (first second : String) : Option (List (Option ProcEntry)) :=
  some [some ⟨utf8 "200", true, some (utf8 first ++ [0])⟩, some ⟨utf8 "300", true, some (utf8 second ++ [0])⟩]

theorem resolve_twoProcesses (second : String) (name : String) (first : String)
    (hfirst : ProcEntry.pid? ⟨utf8 "200", true, some (utf8 first ++ [0])⟩ name = some 200) :
    (resolveProcess (snapshotDevice (twoProcesses first second)) (some name) .specificProcessName 1000).run
      { interfaces := .empty } = .ok ⟨200, 0, name⟩ { interfaces := .empty } := by
  refine (resolveRunning_eq_ok (.inl rfl)).mpr ⟨name, rfl, ?_, rfl, rfl⟩
  exact findPid_eq_some_iff.mpr ⟨[], _, _, rfl, by simp, hfirst⟩

/-- A process whose name is only the start of a service's is resolved to the service. -/
theorem not_identified_of_service :
    (resolveProcess (snapshotDevice (twoProcesses "com.example:sync" "com.example")) (some "com.example")
      .specificProcessName 1000).run { interfaces := .empty } =
        .ok ⟨200, 0, "com.example"⟩ { interfaces := .empty } ∧
      ¬Identified (snapshotDevice (twoProcesses "com.example:sync" "com.example"))
        (twoProcesses "com.example:sync" "com.example") (some "com.example") .specificProcessName 200 := by
  refine ⟨resolve_twoProcesses _ _ _ (by decide +kernel), ?_⟩
  rintro ⟨name, hname, entries, entry, hentries, hmem, hnumber, cmdline, hcmdline, hown⟩
  obtain rfl := Option.some.inj hname
  obtain rfl := Option.some.inj hentries
  simp only [List.mem_cons, Option.some.injEq, List.not_mem_nil, or_false] at hmem
  rcases hmem with rfl | rfl
  · obtain rfl := Option.some.inj hcmdline
    exact absurd hown (by decide +kernel)
  · exact absurd hnumber (by decide +kernel)

theorem identified_of_first :
    Identified (snapshotDevice (twoProcesses "com.example" "com.example:sync"))
      (twoProcesses "com.example" "com.example:sync") (some "com.example") .specificProcessName 200 := by
  have hfirst : ProcEntry.pid? ⟨utf8 "200", true, some (utf8 "com.example" ++ [0])⟩ "com.example" = some 200 := by
    decide +kernel
  refine (identified_iff (by decide)).mpr ?_ _ 1000 ⟨200, 0, "com.example"⟩ { interfaces := .empty } _ rfl
    (resolve_twoProcesses _ _ _ hfirst)
  intro name before entry after pid hname hentries hbefore hpid
  obtain rfl := Option.some.inj hname
  cases before with
  | nil =>
    obtain ⟨hentry, -⟩ := List.cons.inj (Option.some.inj hentries)
    obtain rfl := Option.some.inj hentry
    obtain rfl := Option.some.inj (hfirst.symm.trans hpid)
    exact ⟨_, _, rfl, List.mem_cons_self .., by decide +kernel, _, rfl, by decide +kernel⟩
  | cons e before =>
    obtain ⟨he, -⟩ := List.cons.inj (Option.some.inj hentries)
    obtain rfl := Option.some.inj he
    have := hbefore _ (List.mem_cons_self ..)
    rw [hfirst] at this
    cases this

end UprobeStats
