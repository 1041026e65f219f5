import UprobeStats.Theorems.BinderCleanup

/-! The order of a run. The task and all of its probes are resolved before the first probe is attached, all probes
    are attached before the first map is polled, and what a run clears from the filter map it clears last. -/

namespace UprobeStats
open Rust Effect

/-- What a request is for. The attach that serves to wait for a process is a part of resolving the task. -/
inductive Phase where
  | resolve
  | attach
  | poll
  | clear
  deriving DecidableEq

def Request.phase : Request → Phase
  | .perfEventOpen (some _) _ _ _ _ => .attach
  | .pollRegistry _ => .poll
  | .getFirstInterface => .clear
  | .deleteInterface _ => .clear
  | _ => .resolve

def OfPhase (phase : Phase) (rs : List Request) : Prop := ∀ r ∈ rs, r.phase = phase

theorem OfPhase.append {phase : Phase} {rs rs' : List Request} (h : OfPhase phase rs) (h' : OfPhase phase rs') :
    OfPhase phase (rs ++ rs') := fun r hr => (List.mem_append.mp hr).elim (h r) (h' r)

/-! ### Resolving -/

abbrev Resolving {α : Type} (x : Prog α) : Prop := Within (Asked (·.phase = .resolve)) x

section Resolving
variable {α : Type} {dev : Device}

theorem resolving_ask {r : Request} {answer : List Request → Except Error α} (h : r.phase = .resolve) :
    Resolving (ask r answer) := Within.mono (within_ask h) fun _ _ => OnlyAsked.asked

theorem resolving_getPid (processName : String) : Resolving (getPid dev processName) :=
  Within.get.bind fun _ => .pure _

theorem resolving_getOffsets (target : TargetProcess) (method : MethodDescriptor) :
    Resolving (getOffsets dev target method) := resolving_ask rfl

theorem resolving_getSystemServerOffsets (descriptor : Except Error MethodDescriptor) (method : String) :
    Resolving (getSystemServerOffsets dev descriptor method) := by
  refine (Within.lift _).bind fun target => (Within.lift _).bind fun descriptor => ?_
  refine (resolving_getOffsets _ _).bind fun offsets => ?_
  cases offsets with
  | error e => exact .throw _
  | ok offsets => exact .lift _

theorem resolving_waitLoop (processName : Option String) (duration : Nat) : ∀ rounds : List (Round ProcessChange),
    Resolving (waitLoop processName duration rounds)
  | [] => .throw _
  | round :: rounds => by
    unfold waitLoop
    cases remainingMillis duration round.elapsed with
    | none => exact .throw _
    | some remaining =>
      refine (Within.lift _).bind fun _ => (resolving_ask rfl).bind fun _ => (Within.lift _).bind fun resolved => ?_
      cases resolved with
      | some resolved => exact .pure _
      | none => exact resolving_waitLoop processName duration rounds

theorem resolving_waitForAppStart (processName : Option String) (duration : Nat) :
    Resolving (waitForAppStart dev processName duration) := by
  have hoffsets : Resolving (getAppStartOffsets dev) := by
    refine (resolving_getSystemServerOffsets _ _).attempt.bind fun makeActive => ?_
    cases makeActive with
    | ok offsets => exact .pure _
    | error e => exact (resolving_getSystemServerOffsets _ _).bind fun _ => .pure _
  unfold waitForAppStart
  split
  · exact (resolving_ask rfl).bind fun _ => Within.get.bind fun _ => .lift _
  · refine (resolving_getPid _).bind fun _ => (Within.lift _).bind fun _ => ?_
    refine hoffsets.bind fun found => (Within.lift _).bind fun _ => ?_
    exact (resolving_ask rfl).bind fun _ => Within.get.bind fun _ => resolving_waitLoop processName duration _

theorem resolving_resolveProcess (targetProcessName : Option String) (selection : TargetProcessSelection)
    (duration : Nat) : Resolving (resolveProcess dev targetProcessName selection duration) := by
  have hrunning : Resolving (do
      let processName ← lift (okOr targetProcessName
        s!"Process name is required for selection type {selection.name}")
      let pid ← getPid dev processName
      let pid ← lift (okOr pid s!"Can't find pid for {processName}")
      pure (⟨pid, 0, processName⟩ : ResolvedProcess)) :=
    (Within.lift _).bind fun _ => (resolving_getPid _).bind fun _ => (Within.lift _).bind fun _ => .pure _
  cases selection with
  | unknown => exact hrunning
  | specificProcessName => exact hrunning
  | anyAppProcessOnStart => exact resolving_waitForAppStart _ _
  | specificAppProcessOnStart => exact resolving_waitForAppStart _ _

theorem resolving_resolveSingleTask (dev : Device) (config : UprobestatsConfig) :
    Resolving (resolveSingleTask dev config) := by
  refine (Within.lift _).bind fun task => (Within.forM fun _ _ => .lift _).bind fun _ => ?_
  refine (Within.lift _).bind fun _ => (Within.lift _).bind fun _ => (Within.lift _).bind fun _ => ?_
  exact (resolving_resolveProcess _ _ _).bind fun _ => .pure _

theorem resolving_put (key : String) (value : List UInt64) (flags : UpdateFlag) : Resolving (put key value flags) := by
  refine (resolving_ask rfl).bind fun _ => Within.get.bind fun w => ?_
  cases w.interfaces.update (toCKey key) (toCValue value) flags with
  | ok m => exact .modify fun _ => ⟨[], by simp⟩
  | error e => exact .throw _

theorem resolving_armBinder (p : ResolvedProbe) : Resolving (armBinder dev p) := by
  have haccessor : Resolving (ensureAccessor dev) := by
    refine Within.get.bind fun w => ?_
    split
    · exact .pure _
    · exact (resolving_ask rfl).bind fun _ => .modify fun _ => ⟨[], by simp⟩
  have hfilter (filter : BinderTransactionFilter) : Resolving (writeFilter filter) :=
    (Within.lift _).bind fun _ => (Within.lift _).bind fun _ => (Within.lift _).bind fun _ => resolving_put _ _ _
  unfold armBinder
  split
  · exact haccessor.bind fun _ => (Within.lift _).bind fun _ => .forM fun filter _ => hfilter filter
  · exact .pure _

theorem resolving_retryOffsets (target : TargetProcess) (method : MethodDescriptor) : ∀ retries : Nat,
    Resolving (retryOffsets dev target method retries)
  | 0 => by
    refine (resolving_getOffsets _ _).bind fun offsets => ?_
    cases offsets with
    | ok offsets => exact .pure _
    | error status => exact .throw _
  | retries + 1 => by
    refine (resolving_getOffsets _ _).bind fun offsets => ?_
    cases offsets with
    | ok offsets => exact .pure _
    | error status =>
      dsimp only
      split
      · exact .throw _
      · split
        · exact .throw _
        · exact resolving_retryOffsets target method retries

theorem resolving_resolveByOffsetsApi (task : ResolvedTask) (probe : ProbeConfig) (className path : String) :
    Resolving (resolveByOffsetsApi dev task probe className path) := by
  have hoffsets (target : TargetProcess) (method : MethodDescriptor) :
      Resolving (getExecutableMethodFileOffsetsWithRetry dev target method) := by
    unfold getExecutableMethodFileOffsetsWithRetry
    split
    · refine (resolving_getOffsets _ _).bind fun offsets => ?_
      cases offsets with
      | ok offsets => exact .pure _
      | error status => exact .throw _
    · exact resolving_retryOffsets _ _ _
  refine (Within.lift _).bind fun _ => (Within.lift _).bind fun _ => (Within.lift _).bind fun _ => ?_
  refine (Within.lift _).bind fun _ => (hoffsets _ _).bind fun _ => ?_
  exact (Within.lift _).bind fun _ => (Within.lift _).bind fun _ => .pure _

theorem resolving_findInOatFiles (methodSignature : String) : ∀ filePaths : List String,
    Resolving (findInOatFiles dev methodSignature filePaths)
  | [] => .pure _
  | _ :: filePaths => by
    refine (resolving_ask rfl).attempt.bind fun _ => ?_
    dsimp only
    split
    · exact .pure _
    · exact resolving_findInOatFiles methodSignature filePaths

theorem resolving_resolveProbe (dev : Device) (task : ResolvedTask) (probe : ProbeConfig) :
    Resolving (resolveProbe dev task probe) := by
  refine (Within.lift _).bind fun bpfName => (Within.lift _).bind fun _ => ?_
  cases probe.fullyQualifiedClassName with
  | some className =>
    exact (resolving_resolveByOffsetsApi _ _ _ _).bind fun p => (resolving_armBinder p).bind fun _ => .pure _
  | none =>
    refine (Within.lift _).bind fun _ => (resolving_findInOatFiles _ _).bind fun _ => ?_
    exact (Within.lift _).bind fun _ => .pure _

end Resolving

/-! ### Clearing -/

abbrev Clearing {α : Type} (x : Prog α) : Prop := Within (Asked (·.phase = .clear)) x

theorem clearing_ask {α : Type} {r : Request} {answer : List Request → Except Error α} (h : r.phase = .clear) :
    Clearing (ask r answer) := Within.mono (within_ask h) fun _ _ => OnlyAsked.asked

theorem clearing_delete (key : String) : Clearing (delete key) := by
  refine (clearing_ask rfl).bind fun _ => Within.get.bind fun w => ?_
  cases w.interfaces.delete (toCKey key) with
  | ok m =>
    have hset : Clearing (setInterfaces m) := .modify fun _ => ⟨[], by simp⟩
    exact hset.bind fun _ => .pure _
  | error e => exact .pure _

theorem clearing_drainLoop (dev : Device) : ∀ fuel : Nat, Clearing (drainLoop dev fuel)
  | 0 => .pure _
  | fuel + 1 => by
    refine ((clearing_ask rfl).bind fun _ => Within.get.bind fun _ => .pure _).bind fun key => ?_
    cases key with
    | none => exact .pure _
    | some key =>
      refine (clearing_delete key).bind fun deleted => ?_
      split
      · exact clearing_drainLoop dev fuel
      · exact .throw _

theorem clearing_dropAccessor (dev : Device) (w : World) :
    ∃ cleared, (dropAccessor dev w).requests = w.requests ++ cleared ∧ OfPhase .clear cleared := by
  unfold dropAccessor
  split
  · have hdrain : Clearing (drain dev) := Within.get.bind fun _ => clearing_drainLoop dev _
    exact hdrain w
  · exact ⟨[], by simp, by simp [OfPhase]⟩

/-! ### The attaches and the polls -/

def ResolvedProbe.attachRequest (p : ResolvedProbe) (pid : Int32) : Request :=
  .perfEventOpen (some p) p.filename p.offset pid p.bpfProgramPath

/-- The attach of a probe succeeds on what was asked before. -/
def ResolvedProbe.Attaches (dev : Device) (requests : List Request) (p : ResolvedProbe) : Prop :=
  cString p.filename = .ok () ∧ cString p.bpfProgramPath = .ok () ∧ dev.perfEventOpen requests = 0

/-- The attaches of some probes succeed, one after the other. -/
def AttachAll (dev : Device) (pid : Int32) : List Request → List ResolvedProbe → Prop
  | _, [] => True
  | requests, p :: ps => p.Attaches dev requests ∧ AttachAll dev pid (requests ++ [p.attachRequest pid]) ps

/-- The polls of some maps succeed, each on its own. -/
def pollsSucceed (dev : Device) : List Request → List String → Bool
  | _, [] => true
  | requests, mapPath :: mapPaths =>
    (dev.pollRegistry requests mapPath).isOk && pollsSucceed dev (requests ++ [.pollRegistry mapPath]) mapPaths

section RunTask
variable {dev : Device} {task : ResolvedTask} {w : World}

theorem run_attach_of_attaches {p : ResolvedProbe} (h : p.Attaches dev w.requests) : (attach dev task p).run w =
    .ok ⟨⟩ { w with requests := w.requests ++ [p.attachRequest task.pid] } := by
  obtain ⟨hfilename, hpath, hopen⟩ := h
  rw [attach, bpfPerfEventOpen]
  refine ask_eq_ok.mpr ⟨?_, rfl⟩
  simp [hfilename, hpath, hopen, ensure, bind, Except.bind]

theorem attaches_of_attach_ok {p : ResolvedProbe} {w' : World} (h : (attach dev task p).run w = .ok ⟨⟩ w') :
    p.Attaches dev w.requests := by
  rw [attach, bpfPerfEventOpen] at h
  obtain ⟨hanswer, -⟩ := ask_eq_ok.mp h
  obtain ⟨_, hfilename, hanswer⟩ := andThen_eq_ok.mp hanswer
  obtain ⟨_, hpath, hanswer⟩ := andThen_eq_ok.mp hanswer
  exact ⟨hfilename, hpath, of_decide_eq_true (ensure_eq_ok.mp hanswer)⟩

theorem run_attach_of_not_attaches (task : ResolvedTask) {p : ResolvedProbe} (h : ¬p.Attaches dev w.requests) : ∃ e,
    (attach dev task p).run w = .error e { w with requests := w.requests ++ [p.attachRequest task.pid] } := by
  have hafter : after ((attach dev task p).run w) = { w with requests := w.requests ++ [p.attachRequest task.pid] } := by
    rw [attach, bpfPerfEventOpen]
    exact after_ask
  cases hrun : (attach dev task p).run w with
  | ok u v => exact absurd (attaches_of_attach_ok hrun) h
  | error e v =>
    rw [hrun] at hafter
    exact ⟨e, by rw [← hafter, after_error]⟩

/-- The loop over the probes attaches all of them, or stops after the first that cannot be attached. -/
theorem run_attaches : ∀ (ps : List ResolvedProbe) (w : World),
    (AttachAll dev task.pid w.requests ps ∧ (ps.forM (attach dev task)).run w =
      .ok ⟨⟩ { w with requests := w.requests ++ ps.map (·.attachRequest task.pid) }) ∨
    ∃ before p rest e, ps = before ++ p :: rest ∧ AttachAll dev task.pid w.requests before ∧
      ¬p.Attaches dev (w.requests ++ before.map (·.attachRequest task.pid)) ∧ (ps.forM (attach dev task)).run w =
        .error e { w with requests := w.requests ++ (before ++ [p]).map (·.attachRequest task.pid) }
  | [], w => .inl ⟨trivial, by simp⟩
  | p :: ps, w => by
    rw [forM_cons, EStateM.run_bind]
    by_cases hp : p.Attaches dev w.requests
    · rw [run_attach_of_attaches hp]
      dsimp only
      rcases run_attaches ps { w with requests := w.requests ++ [p.attachRequest task.pid] } with
        ⟨hall, hrun⟩ | ⟨before, q, rest, e, rfl, hall, hq, hrun⟩
      · refine .inl ⟨⟨hp, hall⟩, ?_⟩
        rw [hrun]
        simp
      · refine .inr ⟨p :: before, q, rest, e, rfl, ⟨hp, hall⟩, ?_, ?_⟩
        · simpa using hq
        · rw [hrun]
          simp
    · obtain ⟨e, hrun⟩ := run_attach_of_not_attaches task hp
      refine .inr ⟨[], p, ps, e, rfl, trivial, by simpa using hp, ?_⟩
      rw [hrun]
      simp

/-- Every map is polled, whatever becomes of the polls of the others. -/
theorem run_pollMaps (dev : Device) : ∀ (mapPaths : List String) (w : World), ∃ errors, (pollMaps dev mapPaths).run w =
    .ok errors { w with requests := w.requests ++ mapPaths.map .pollRegistry } ∧
      (errors = [] ↔ pollsSucceed dev w.requests mapPaths = true)
  | [], w => ⟨[], by rw [pollMaps]; simp, by simp [pollsSucceed]⟩
  | mapPath :: mapPaths, w => by
    obtain ⟨errors, hrun, herrors⟩ := run_pollMaps dev mapPaths { w with requests := w.requests ++ [.pollRegistry mapPath] }
    rw [pollMaps, run_attempt_ask_bind, EStateM.run_bind, hrun, pollsSucceed]
    cases dev.pollRegistry w.requests mapPath with
    | ok u => exact ⟨errors, by simp, by simpa [Except.isOk, Except.toBool] using herrors⟩
    | error e => exact ⟨e :: errors, by simp, by simp [Except.isOk, Except.toBool]⟩

end RunTask

/-! ### The run -/

/-- The task is the first one of the config, and the probes are its own, in order, each with its program. -/
structure Resolves (dev : Device) (task : ResolvedTask) (probes : List ResolvedProbe) : Prop where
  first : ∃ config, dev.config = .ok config ∧ config.tasks.head? = some task.task
  probes_eq : probes.map (·.probe) = task.task.probeConfigs
  program : ∀ p ∈ probes, ∃ bpfName, p.probe.bpfName = some bpfName ∧ p.bpfProgramPath = prefixBpf bpfName
  maps : task.bpfMapPaths = (task.task.bpfMaps.map prefixBpf).dedup

/-- The requests of a run, in the order in which it makes them, and whether it succeeds. -/
inductive Phases (dev : Device) : List Request → Bool → Prop where
  | unresolved (asked cleared : List Request) (hasked : OfPhase .resolve asked) (hcleared : OfPhase .clear cleared) :
    Phases dev (asked ++ cleared) false
  | unattached (asked cleared : List Request) (task : ResolvedTask) (before rest : List ResolvedProbe)
    (p : ResolvedProbe) (hasked : OfPhase .resolve asked) (hcleared : OfPhase .clear cleared)
    (hresolves : Resolves dev task (before ++ p :: rest)) (hbefore : AttachAll dev task.pid asked before)
    (hp : ¬p.Attaches dev (asked ++ before.map (·.attachRequest task.pid))) :
    Phases dev (asked ++ (before ++ [p]).map (·.attachRequest task.pid) ++ cleared) false
  | attached (asked cleared : List Request) (task : ResolvedTask) (probes : List ResolvedProbe)
    (hasked : OfPhase .resolve asked) (hcleared : OfPhase .clear cleared) (hresolves : Resolves dev task probes)
    (hprobes : AttachAll dev task.pid asked probes) :
    Phases dev (asked ++ probes.map (·.attachRequest task.pid) ++ task.bpfMapPaths.map .pollRegistry ++ cleared)
      (pollsSucceed dev (asked ++ probes.map (·.attachRequest task.pid)) task.bpfMapPaths)

section Run
variable {dev : Device} {task : ResolvedTask} {w w' : World}

theorem resolveSingleTask_duration {config : UprobestatsConfig} (h : (resolveSingleTask dev config).run w = .ok task w') :
    (∃ duration, tryU64 task.durationSeconds.toInt = .ok duration) ∧
      task.bpfMapPaths = (task.task.bpfMaps.map prefixBpf).dedup := by
  obtain ⟨t, -, h⟩ := bind_lift_eq_ok.mp h
  obtain ⟨_, _, -, h⟩ := bind_eq_ok.mp h
  obtain ⟨_, -, h⟩ := bind_lift_eq_ok.mp h
  obtain ⟨_, -, h⟩ := bind_lift_eq_ok.mp h
  obtain ⟨duration, hduration, h⟩ := bind_lift_eq_ok.mp h
  obtain ⟨_, _, -, h⟩ := bind_eq_ok.mp h
  cases h
  exact ⟨⟨duration, hduration⟩, rfl⟩

theorem resolveProbe_program {probe : ProbeConfig} {p : ResolvedProbe}
    (h : (resolveProbe dev task probe).run w = .ok p w') :
    p.probe = probe ∧ ∃ bpfName, p.probe.bpfName = some bpfName ∧ p.bpfProgramPath = prefixBpf bpfName := by
  obtain ⟨bpfName, hname, h⟩ := bind_lift_eq_ok.mp h
  obtain ⟨_, -, h⟩ := bind_lift_eq_ok.mp h
  cases hclassName : probe.fullyQualifiedClassName with
  | none =>
    rw [hclassName] at h
    obtain ⟨rfl, hpath⟩ := resolveByOatdump_ok h
    exact ⟨rfl, bpfName, okOr_eq_ok.mp hname, hpath⟩
  | some className =>
    rw [hclassName] at h
    obtain ⟨_, v, hresolve, h⟩ := bind_eq_ok.mp h
    obtain ⟨_, u, -, h⟩ := bind_eq_ok.mp h
    cases h
    obtain ⟨rfl, hpath, -⟩ := resolveByOffsetsApi_ok hresolve
    exact ⟨rfl, bpfName, okOr_eq_ok.mp hname, hpath⟩

theorem mapM_resolveProbe_program : ∀ {probes : List ProbeConfig} {ps : List ResolvedProbe} {w w' : World},
    (probes.mapM (resolveProbe dev task)).run w = .ok ps w' → ps.map (·.probe) = probes ∧
      ∀ p ∈ ps, ∃ bpfName, p.probe.bpfName = some bpfName ∧ p.bpfProgramPath = prefixBpf bpfName
  | [], _, _, _, h => by
    cases h
    exact ⟨rfl, by simp⟩
  | probe :: probes, _, _, _, h => by
    obtain ⟨p, u, ps, hresolve, hrest, rfl⟩ := mapM_cons_eq_ok.mp h
    obtain ⟨rfl, hprogram⟩ := resolveProbe_program hresolve
    obtain ⟨rfl, hprograms⟩ := mapM_resolveProbe_program hrest
    exact ⟨rfl, List.forall_mem_cons.mpr ⟨hprogram, hprograms⟩⟩

/-- Once the probes are resolved, they are attached, and then the maps are polled. -/
theorem run_runTask {duration : UInt64} (hduration : tryU64 task.durationSeconds.toInt = .ok duration)
    (probes : List ResolvedProbe) (w : World) :
    (AttachAll dev task.pid w.requests probes ∧ (after ((runTask dev task probes).run w)).requests =
        w.requests ++ probes.map (·.attachRequest task.pid) ++ task.bpfMapPaths.map .pollRegistry ∧
      isOk ((runTask dev task probes).run w) =
        pollsSucceed dev (w.requests ++ probes.map (·.attachRequest task.pid)) task.bpfMapPaths) ∨
    ∃ before p rest, probes = before ++ p :: rest ∧ AttachAll dev task.pid w.requests before ∧
      ¬p.Attaches dev (w.requests ++ before.map (·.attachRequest task.pid)) ∧
      (after ((runTask dev task probes).run w)).requests =
        w.requests ++ (before ++ [p]).map (·.attachRequest task.pid) ∧
      isOk ((runTask dev task probes).run w) = false := by
  rw [runTask, EStateM.run_bind]
  rcases run_attaches probes w with ⟨hall, hrun⟩ | ⟨before, p, rest, e, hsplit, hall, hp, hrun⟩
  · refine .inl ⟨hall, ?_⟩
    obtain ⟨errors, hpolls, herrors⟩ := run_pollMaps dev task.bpfMapPaths
      { w with requests := w.requests ++ probes.map (·.attachRequest task.pid) }
    rw [hrun]
    dsimp only
    rw [run_lift_bind_of_ok hduration, EStateM.run_bind, hpolls]
    dsimp only
    rw [run_lift]
    by_cases hnone : errors = []
    · rw [herrors.mp hnone]
      simp [hnone, ensure, isOk]
    · rw [Bool.eq_false_iff.mpr (mt herrors.mpr hnone)]
      simp [hnone, ensure, isOk]
  · refine .inr ⟨before, p, rest, hsplit, hall, hp, ?_⟩
    rw [hrun]
    exact ⟨rfl, rfl⟩

end Run

/-- A run gets so far that it has resolved its task and the probes of it. -/
structure ResolvedAt (dev : Device) (interfaces : InterfacesMap) (task : ResolvedTask) (probes : List ResolvedProbe)
    (t : World) : Prop where
  run : ∃ config u, (readAllowedConfig dev).run { interfaces } = .ok config { interfaces } ∧
    (resolveSingleTask dev config).run { interfaces } = .ok task u ∧
    (task.task.probeConfigs.mapM (resolveProbe dev task)).run u = .ok probes t
  requests : OfPhase .resolve t.requests

section Main
variable {dev : Device} {interfaces : InterfacesMap} {task : ResolvedTask} {probes : List ResolvedProbe} {t : World}

theorem ResolvedAt.resolves (h : ResolvedAt dev interfaces task probes t) : Resolves dev task probes := by
  obtain ⟨config, u, hread, hresolve, hprobes⟩ := h.run
  obtain ⟨heq, hprogram⟩ := mapM_resolveProbe_program hprobes
  exact ⟨⟨config, (readAllowedConfig_ok hread).1, resolveSingleTask_ok hresolve⟩, heq, hprogram,
    (resolveSingleTask_duration hresolve).2⟩

/-- A run fails before it has resolved its probes, or it comes to attach them. -/
theorem mainImpl_cases (dev : Device) (interfaces : InterfacesMap) :
    (isOk ((mainImpl dev).run { interfaces }) = false ∧ ∃ asked cleared, OfPhase .resolve asked ∧
      OfPhase .clear cleared ∧ (after ((mainImpl dev).run { interfaces })).requests = asked ++ cleared) ∨
    ∃ task probes t cleared, ResolvedAt dev interfaces task probes t ∧ OfPhase .clear cleared ∧
      (after ((mainImpl dev).run { interfaces })).requests =
        (after ((runTask dev task probes).run t)).requests ++ cleared ∧
      isOk ((mainImpl dev).run { interfaces }) = isOk ((runTask dev task probes).run t) := by
  have hdrop := clearing_dropAccessor dev
  have hnone : OfPhase .clear [] := by simp [OfPhase]
  rw [mainImpl, EStateM.run_bind]
  cases hread : (readAllowedConfig dev).run { interfaces } with
  | error e v =>
    obtain rfl := (within_readAllowedConfig dev).of_error hread
    exact .inl ⟨rfl, [], [], by simp [OfPhase], hnone, rfl⟩
  | ok config v =>
    obtain rfl := (within_readAllowedConfig dev).of_ok hread
    dsimp only
    rw [EStateM.run_bind]
    obtain ⟨asked, hasked, htask⟩ := resolving_resolveSingleTask dev config { interfaces }
    cases hresolve : (resolveSingleTask dev config).run { interfaces } with
    | error e u =>
      rw [hresolve] at hasked
      exact .inl ⟨rfl, asked, [], htask, hnone, by simpa using hasked⟩
    | ok task u =>
      rw [hresolve] at hasked
      dsimp only
      rw [run_onExit, EStateM.run_bind, resolveProbes, run_onError]
      have hprobe : Resolving (task.task.probeConfigs.mapM (resolveProbe dev task)) :=
        Within.mapM fun probe _ => resolving_resolveProbe dev task probe
      obtain ⟨more, hmore, hresolving⟩ := hprobe u
      rw [show u.requests = asked from hasked] at hmore
      have hall := OfPhase.append htask hresolving
      cases hprobes : (task.task.probeConfigs.mapM (resolveProbe dev task)).run u with
      | error e t =>
        rw [hprobes] at hmore
        obtain ⟨cleared, hcleared, hclear⟩ := hdrop t
        dsimp only
        rw [dropAccessor_of_not accessor_dropAccessor, after_error, hcleared, show t.requests = _ from hmore]
        exact .inl ⟨rfl, _, cleared, hall, hclear, rfl⟩
      | ok probes t =>
        rw [hprobes] at hmore
        obtain ⟨cleared, hcleared, hclear⟩ := hdrop (after ((runTask dev task probes).run t))
        have hat : ResolvedAt dev interfaces task probes t :=
          ⟨⟨config, u, hread, hresolve, hprobes⟩, (show t.requests = _ from hmore) ▸ hall⟩
        refine .inr ⟨task, probes, t, cleared, hat, hclear, ?_⟩
        rw [← hcleared]
        dsimp only
        cases (runTask dev task probes).run t <;> exact ⟨rfl, rfl⟩

end Main

/-- However a run ends: it first asks what it needs to resolve its task and every probe of it; if it gets all of
    that, it attaches the probes one after the other, in the order of the config, up to the first that cannot be
    attached; if all are attached, it polls every map of the task once; what it clears from the filter map comes
    last. It succeeds exactly when it gets to the polls and all of them succeed. -/
theorem mainImpl_in_phases (dev : Device) (interfaces : InterfacesMap) :
    Phases dev (after ((mainImpl dev).run { interfaces })).requests (isOk ((mainImpl dev).run { interfaces })) := by
  rcases mainImpl_cases dev interfaces with
    ⟨hok, asked, cleared, hasked, hcleared, hrequests⟩ | ⟨task, probes, t, cleared, hat, hcleared, hrequests, hok⟩
  · rw [hrequests, hok]
    exact .unresolved asked cleared hasked hcleared
  · obtain ⟨config, u, -, hresolve, -⟩ := hat.run
    obtain ⟨⟨duration, hduration⟩, -⟩ := resolveSingleTask_duration hresolve
    rw [hrequests, hok]
    rcases run_runTask hduration probes t with
      ⟨hattached, hrun, hend⟩ | ⟨before, p, rest, hsplit, hbefore, hp, hrun, hend⟩
    · rw [hrun, hend]
      exact .attached _ _ task probes hat.requests hcleared hat.resolves hattached
    · rw [hrun, hend]
      exact .unattached _ _ task before rest p hat.requests hcleared (hsplit ▸ hat.resolves) hbefore hp

end UprobeStats
