import UprobeStats.Theorems.Requests

/-! The guardrail, up to the attach. What `is_allowed` checks is the class and the method of every probe;
    what is attached on a user build is the answer of the offsets API for the same class and method. -/

namespace UprobeStats
open Rust Effect Text

/-! ### The check -/

/-- The name is an entry of the allow list, or goes on after one with `(`, `.` or `$`. -/
def NameAllowed (name : String) : Prop :=
  ∃ entry ∈ allowedMethodPrefixes, name = entry ∨
    ∃ c ∈ ['(', '.', '$'], ∃ rest, name.toList = entry.toList ++ c :: rest

def ProbeConfig.Allowed (probe : ProbeConfig) : Prop :=
  ∃ className methodName, probe.fullyQualifiedClassName = some className ∧ probe.methodName = some methodName ∧
    NameAllowed (className ++ "." ++ methodName)

theorem isAllowedName_iff {name : String} : isAllowedName name = true ↔ NameAllowed name := by
  simp only [isAllowedName, NameAllowed, List.any_eq_true, Bool.or_eq_true, decide_eq_true_eq, startsWith_iff,
    String.toList_append, List.append_assoc]
  refine exists_congr fun entry => and_congr_right fun _ => ?_
  simp only [List.mem_cons, List.not_mem_nil, or_false, exists_eq_or_imp, exists_eq_left, or_assoc]
  rfl

theorem areAllowed_eq_true : ∀ {probes : List ProbeConfig},
    areAllowed true probes = .ok true → ∀ probe ∈ probes, probe.Allowed
  | [], _, probe, hp => by simp at hp
  | x :: probes, h, probe, hp => by
    obtain ⟨name, hname, h⟩ := andThen_eq_ok.mp h
    obtain ⟨className, hclass, hname⟩ := andThen_eq_ok.mp hname
    obtain ⟨methodName, hmethod, hname⟩ := andThen_eq_ok.mp hname
    obtain rfl := Except.ok.inj hname
    split at h
    · rename_i hallowed
      rcases List.mem_cons.mp hp with rfl | hp
      · exact ⟨className, methodName, okOr_eq_ok.mp hclass, okOr_eq_ok.mp hmethod, isAllowedName_iff.mp hallowed⟩
      · exact areAllowed_eq_true h probe hp
    · cases h

/-- On a user build the check of the config lets only allowed probes pass, in whichever task they are. -/
theorem allowed_of_readAllowedConfig {dev : Device} (huser : dev.isUserBuild = true) {config : UprobestatsConfig}
    {w w' : World} (h : (readAllowedConfig dev).run w = .ok config w') :
    ∀ task ∈ config.tasks, ∀ probe ∈ task.probeConfigs, probe.Allowed := by
  obtain ⟨-, hallowed⟩ := readAllowedConfig_ok h
  rw [isAllowed, huser] at hallowed
  exact fun task htask probe hprobe => areAllowed_eq_true hallowed probe (List.mem_flatMap.mpr ⟨task, htask, hprobe⟩)

/-! ### The probes -/

/-- A probe has a class and a method, and its place is what the offsets API gave for them. -/
def Located (dev : Device) (requests : List Request) (p : ResolvedProbe) : Prop :=
  ∃ className methodName, p.probe.fullyQualifiedClassName = some className ∧ p.probe.methodName = some methodName ∧
    Answered dev requests className methodName p.filename p.offset

theorem Located.mono {dev : Device} {requests requests' : List Request} {p : ResolvedProbe}
    (h : Located dev requests p) (hle : requests <+: requests') : Located dev requests' p := by
  obtain ⟨className, methodName, hclass, hmethod, h⟩ := h
  exact ⟨className, methodName, hclass, hmethod, h.mono hle⟩

section Probes
variable {dev : Device} {task : ResolvedTask} {probe : ProbeConfig} {p : ResolvedProbe} {w w' : World}

theorem resolveProbe_ok {className : String} (hclass : probe.fullyQualifiedClassName = some className)
    (h : (resolveProbe dev task probe).run w = .ok p w') : p.probe = probe ∧ Located dev w'.requests p := by
  obtain ⟨bpfName, -, h⟩ := bind_lift_eq_ok.mp h
  obtain ⟨_, _, -, h⟩ := bind_eq_ok.mp h
  rw [hclass] at h
  obtain ⟨_, v, hresolve, h⟩ := bind_eq_ok.mp h
  obtain ⟨_, u, harm, h⟩ := bind_eq_ok.mp h
  cases h
  obtain ⟨rfl, -, methodName, hmethod, hanswered⟩ := resolveByOffsetsApi_ok hresolve
  obtain ⟨rs, hrs, -⟩ := (preliminary_armBinder p).of_ok harm
  exact ⟨rfl, className, methodName, hclass, hmethod, hanswered.mono ⟨rs, hrs.symm⟩⟩

/-- Every probe of a task that was resolved is a probe of that task, and it is located. -/
theorem resolveProbes_ok (hallowed : ∀ probe ∈ task.task.probeConfigs, probe.Allowed) {ps : List ResolvedProbe}
    (h : (resolveProbes dev task).run w = .ok ps w') :
    ∀ p ∈ ps, p.probe ∈ task.task.probeConfigs ∧ Located dev w'.requests p := by
  have hprobes : Triple (fun _ => True) (resolveProbes dev task) (fun ps v => True ∧ ∀ p ∈ ps,
      p.probe ∈ task.task.probeConfigs ∧ Located dev v.requests p) fun _ => True := by
    refine Triple.onError (Triple.mapM fun probe hprobe done v hv => ?_)
    obtain ⟨className, -, hclass, -⟩ := hallowed probe hprobe
    cases hrun : (resolveProbe dev task probe).run v with
    | error e u => trivial
    | ok p u =>
      obtain ⟨rfl, hlocated⟩ := resolveProbe_ok hclass hrun
      obtain ⟨rs, hrs, -⟩ := (preliminary_resolveProbe task hclass).of_ok hrun
      exact ⟨trivial, ⟨hprobe, hlocated⟩, fun q hq => ⟨(hv.2 q hq).1, (hv.2 q hq).2.mono ⟨rs, hrs.symm⟩⟩⟩
  exact (hprobes.ok trivial h).2

theorem preliminary_resolveProbes (dev : Device) (hallowed : ∀ probe ∈ task.task.probeConfigs, probe.Allowed) :
    Preliminary (resolveProbes dev task) := by
  refine Within.onError (Within.mapM fun probe hprobe => ?_) (preliminary_dropAccessor dev)
  obtain ⟨className, -, hclass, -⟩ := hallowed probe hprobe
  exact preliminary_resolveProbe task hclass

end Probes

/-! ### The run -/

/-- Everything that was asked for a probe of the config is the attach of a located probe of `probes`. -/
def Sound (dev : Device) (probes : List ProbeConfig) (requests : List Request) : Prop :=
  ∀ r ∈ requests, r.ofProbe = true → ∃ p pid, r = .perfEventOpen (some p) p.filename p.offset pid p.bpfProgramPath ∧
    p.probe ∈ probes ∧ Located dev requests p

section Run
variable {dev : Device} {probes : List ProbeConfig} {requests rs : List Request}

theorem Sound.append (h : Sound dev probes requests) (hrs : ∀ r ∈ rs, r.ofProbe = false) :
    Sound dev probes (requests ++ rs) := by
  intro r hr hof
  rcases List.mem_append.mp hr with hr | hr
  · obtain ⟨p, pid, heq, hp, hlocated⟩ := h r hr hof
    exact ⟨p, pid, heq, hp, hlocated.mono (List.prefix_append ..)⟩
  · rw [hrs r hr] at hof
    cases hof

theorem Sound.append_attach (h : Sound dev probes requests) {p : ResolvedProbe} (pid : Int32) (hp : p.probe ∈ probes)
    (hlocated : Located dev requests p) :
    Sound dev probes (requests ++ [.perfEventOpen (some p) p.filename p.offset pid p.bpfProgramPath]) := by
  intro r hr hof
  rcases List.mem_append.mp hr with hr | hr
  · obtain ⟨q, qpid, heq, hq, hlocated⟩ := h r hr hof
    exact ⟨q, qpid, heq, hq, hlocated.mono (List.prefix_append ..)⟩
  · exact ⟨p, pid, List.mem_singleton.mp hr, hp, hlocated.mono (List.prefix_append ..)⟩

theorem Sound.triple {α : Type} {x : Prog α} (hx : Preliminary x) :
    Triple (fun w => Sound dev probes w.requests) x (fun _ w => Sound dev probes w.requests)
      fun w => Sound dev probes w.requests := by
  intro w hw
  obtain ⟨rs, hrs, hof⟩ := hx w
  cases hrun : x.run w <;> exact (show Sound dev probes _ by rw [hrun] at hrs; exact hrs ▸ hw.append hof)

/-- Attaching located probes keeps the run sound, wherever it stops. -/
theorem sound_runTask {task : ResolvedTask} {ps : List ResolvedProbe} :
    Triple (fun w => Sound dev probes w.requests ∧ ∀ p ∈ ps, p.probe ∈ probes ∧ Located dev w.requests p)
      (runTask dev task ps) (fun _ w => Sound dev probes w.requests) fun w => Sound dev probes w.requests := by
  have hattach : ∀ p ∈ ps, Triple
      (fun w => Sound dev probes w.requests ∧ ∀ p ∈ ps, p.probe ∈ probes ∧ Located dev w.requests p)
      (attach dev task p)
      (fun _ w => Sound dev probes w.requests ∧ ∀ p ∈ ps, p.probe ∈ probes ∧ Located dev w.requests p)
      fun w => Sound dev probes w.requests := by
    intro p hp w hw
    have hafter : (after ((attach dev task p).run w)).requests =
        w.requests ++ [.perfEventOpen (some p) p.filename p.offset task.pid p.bpfProgramPath] := by
      rw [attach, bpfPerfEventOpen, after_ask]
    have hsound := hw.1.append_attach task.pid (hw.2 p hp).1 (hw.2 p hp).2
    rw [← hafter] at hsound
    cases hrun : (attach dev task p).run w with
    | error e v =>
      rw [hrun] at hsound
      exact hsound
    | ok u v =>
      rw [hrun] at hsound hafter
      refine ⟨hsound, fun q hq => ⟨(hw.2 q hq).1, (hw.2 q hq).2.mono ?_⟩⟩
      exact ⟨_, hafter.symm⟩
  refine (Triple.forM hattach).bind fun _ => ?_
  refine (Sound.triple ?_).conseq (fun w hw => hw.1) (fun _ _ h => h) fun _ h => h
  exact (Within.lift _).bind fun _ => (inquiry_pollMaps _).preliminary.bind fun _ => .lift _

theorem Sound.dropAccessor {w : World} (h : Sound dev probes w.requests) :
    Sound dev probes (dropAccessor dev w).requests := by
  obtain ⟨rs, hrs, hof⟩ := preliminary_dropAccessor dev w
  exact hrs ▸ h.append hof

/-- Resolving the probes of an allowed task and attaching them keeps the run sound, up to the drop at its end. -/
theorem sound_probes {task : ResolvedTask} (hallowed : ∀ probe ∈ task.task.probeConfigs, probe.Allowed) :
    Triple (fun w => Sound dev task.task.probeConfigs w.requests)
      (onExit (do
        let probes ← resolveProbes dev task
        runTask dev task probes) (dropAccessor dev))
      (fun _ w => Sound dev task.task.probeConfigs w.requests)
      fun w => Sound dev task.task.probeConfigs w.requests := by
  refine Triple.onExit (Triple.bind (Q := fun ps w => Sound dev task.task.probeConfigs w.requests ∧
    ∀ p ∈ ps, p.probe ∈ task.task.probeConfigs ∧ Located dev w.requests p) ?_ fun ps => ?_)
  · intro w hw
    have hsound := Sound.triple (preliminary_resolveProbes dev hallowed) w hw
    cases hrun : (resolveProbes dev task).run w with
    | error e v =>
      rw [hrun] at hsound
      exact hsound.dropAccessor
    | ok ps v =>
      rw [hrun] at hsound
      exact ⟨hsound, resolveProbes_ok hallowed hrun⟩
  · exact sound_runTask.conseq (fun _ h => h) (fun _ w h => h.dropAccessor) fun w h => h.dropAccessor

theorem after_mainImpl_of_disallowed (huser : dev.isUserBuild = true) {config : UprobestatsConfig}
    (hconfig : dev.config = .ok config) {task : Task} (htask : task ∈ config.tasks) {probe : ProbeConfig}
    (hprobe : probe ∈ task.probeConfigs) (hnot : ¬probe.Allowed) (w : World) : after ((mainImpl dev).run w) = w := by
  rw [mainImpl, EStateM.run_bind]
  cases hread : (readAllowedConfig dev).run w with
  | error e v => exact ((within_readAllowedConfig dev).of_error hread).symm
  | ok config' v =>
    obtain rfl := Except.ok.inj ((readAllowedConfig_ok hread).1.symm.trans hconfig)
    exact absurd (allowed_of_readAllowedConfig huser hread task htask probe hprobe) hnot

/-- A run attaches only located probes of its first task, all of them allowed. -/
theorem sound_mainImpl (huser : dev.isUserBuild = true) {w : World} (hw : w.requests = []) :
    (∀ r ∈ (after ((mainImpl dev).run w)).requests, r.ofProbe = false) ∨
      ∃ config task, dev.config = .ok config ∧ config.tasks.head? = some task ∧
        (∀ probe ∈ task.probeConfigs, probe.Allowed) ∧
        Sound dev task.probeConfigs (after ((mainImpl dev).run w)).requests := by
  rw [mainImpl, EStateM.run_bind]
  cases hread : (readAllowedConfig dev).run w with
  | error e v =>
    obtain rfl := (within_readAllowedConfig dev).of_error hread
    exact .inl (by simp [hw])
  | ok config v =>
    obtain rfl := (within_readAllowedConfig dev).of_ok hread
    obtain ⟨hconfig, -⟩ := readAllowedConfig_ok hread
    dsimp only
    rw [EStateM.run_bind]
    obtain ⟨rs, hrs, hof⟩ := (inquiry_resolveSingleTask dev config).preliminary w
    rw [hw, List.nil_append] at hrs
    cases hresolve : (resolveSingleTask dev config).run w with
    | error e u =>
      rw [hresolve] at hrs
      exact .inl (hrs ▸ hof)
    | ok task u =>
      rw [hresolve] at hrs
      have hhead := resolveSingleTask_ok hresolve
      have hprobes := allowed_of_readAllowedConfig huser hread task.task (List.mem_of_mem_head? hhead)
      refine .inr ⟨config, task.task, hconfig, hhead, hprobes, ?_⟩
      refine (sound_probes hprobes).after (s := u) ?_
      rw [show u.requests = rs from hrs]
      exact fun r hr hr' => by rw [hof r hr] at hr'; cases hr'

end Run

/-- On a user build a run attaches a probe of the config only if it is a probe of the first task with a
    class and a method that are allowed, at the place that the offsets API gave for these; it never asks
    `oatdump`; and one probe that is not allowed keeps it from attaching anything. -/
theorem attaches_allowed (dev : Device) (huser : dev.isUserBuild = true) (interfaces : InterfacesMap) :
    let requests := (after ((mainImpl dev).run { interfaces })).requests
    (∀ p filename offset pid path, .perfEventOpen (some p) filename offset pid path ∈ requests →
      ∃ config task className methodName, dev.config = .ok config ∧ config.tasks.head? = some task ∧
        p.probe ∈ task.probeConfigs ∧ p.probe.fullyQualifiedClassName = some className ∧
        p.probe.methodName = some methodName ∧ Answered dev requests className methodName filename offset ∧
        NameAllowed (className ++ "." ++ methodName)) ∧
    (∀ oatFile, .oatdump oatFile ∉ requests) ∧
    ∀ config, dev.config = .ok config → ∀ task ∈ config.tasks, ∀ probe ∈ task.probeConfigs, ¬probe.Allowed →
      ∀ p filename offset pid path, .perfEventOpen p filename offset pid path ∉ requests := by
  refine ⟨fun p filename offset pid path hmem => ?_, fun oatFile hmem => ?_, ?_⟩
  · rcases sound_mainImpl huser (w := { interfaces }) rfl with hnone | ⟨config, task, hconfig, hhead, hallowed, hsound⟩
    · cases hnone _ hmem
    · obtain ⟨q, qpid, heq, hq, className, methodName, hclass, hmethod, hanswered⟩ := hsound _ hmem rfl
      cases heq
      obtain ⟨className', methodName', hclass', hmethod', hname⟩ := hallowed p.probe hq
      obtain rfl := Option.some.inj (hclass.symm.trans hclass')
      obtain rfl := Option.some.inj (hmethod.symm.trans hmethod')
      exact ⟨config, task, className, methodName, hconfig, hhead, hq, hclass, hmethod, hanswered, hname⟩
  · rcases sound_mainImpl huser (w := { interfaces }) rfl with hnone | ⟨config, task, -, -, -, hsound⟩
    · cases hnone _ hmem
    · obtain ⟨p, pid, heq, -⟩ := hsound _ hmem rfl
      cases heq
  · intro config hconfig task htask probe hprobe hnot p filename offset pid path hmem
    rw [after_mainImpl_of_disallowed huser hconfig htask hprobe hnot] at hmem
    cases hmem

def oomAdjusterProbe : ProbeConfig where
  bpfName := some "prog_OomAdjuster_uprobe"
  fullyQualifiedClassName := some "com.android.server.am.OomAdjuster"
  methodName := some "setUidTempAllowlistStateLSP"

def oomAdjusterAttach : Request :=
  .perfEventOpen (some ⟨oomAdjusterProbe, "/system/framework/oat/arm64/services.odex", 4096,
    "/sys/fs/bpf/uprobestats/prog_OomAdjuster_uprobe"⟩) "/system/framework/oat/arm64/services.odex" 4096 100
    "/sys/fs/bpf/uprobestats/prog_OomAdjuster_uprobe"

theorem attaches_allowed_oomAdjuster :
    let requests := (after ((mainImpl (quietDevice (oneTask [oomAdjusterProbe]))).run ⟨.empty, false, [], []⟩)).requests
    oomAdjusterAttach ∈ requests ∧ NameAllowed ("com.android.server.am.OomAdjuster" ++ "." ++
      "setUidTempAllowlistStateLSP") := by
  have hmem : oomAdjusterAttach ∈
      (after ((mainImpl (quietDevice (oneTask [oomAdjusterProbe]))).run ⟨.empty, false, [], []⟩)).requests := by
    decide +kernel
  obtain ⟨_, _, className, methodName, -, -, -, hclass, hmethod, -, hname⟩ :=
    (attaches_allowed (quietDevice (oneTask [oomAdjusterProbe])) rfl .empty).1 _ _ _ _ _ hmem
  obtain rfl := Option.some.inj hclass
  obtain rfl := Option.some.inj hmethod
  exact ⟨hmem, hname⟩

end UprobeStats
