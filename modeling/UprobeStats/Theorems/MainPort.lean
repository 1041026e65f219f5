import UprobeStats.Theorems.CxxGates
import UprobeStats.Theorems.GuardrailSound
import UprobeStats.Theorems.Ports
import UprobeStats.Theorems.RunPhases
import UprobeStats.Theorems.TargetProcess

/-! The two programs on one config. Where the C++ program is made for a config, whatever the Rust program attaches
    it attaches as well, at the same places in the same process and in the same order. -/

namespace UprobeStats
open Rust Effect Text

/-! ### The process -/

/-- Each entry whose command line begins with a name is a running process of just that name. -/
def OwnNames (entries : List (Option ProcEntry)) (name : String) : Prop :=
  ∀ entry cmdline, some entry ∈ entries → entry.cmdline = some cmdline → utf8 name <+: cmdline →
    entry.isDir = true ∧ ownName cmdline = utf8 name ∧ ∃ pid, entry.number? = some pid ∧ 0 ≤ pid

section Process
variable {name : String} {entries : List (Option ProcEntry)}

theorem own_line_iff {cmdline : List UInt8} (hown : utf8 name <+: cmdline → ownName cmdline = utf8 name) :
    (cmdline = utf8 name || (utf8 name ++ [0]).isPrefixOf cmdline) = true ↔ utf8 name <+: cmdline := by
  rw [Bool.or_eq_true, decide_eq_true_eq, List.isPrefixOf_iff_prefix]
  constructor
  · rintro (rfl | h)
    · exact List.prefix_refl _
    · exact (List.prefix_append _ _).trans h
  · intro h
    have hname := hown h
    obtain ⟨rest, rfl⟩ := h
    cases rest with
    | nil => exact .inl (List.append_nil _)
    | cons b rest =>
      have hzero : b = 0 := by
        have hall : ∀ x ∈ utf8 name, decide (x ≠ 0) = true := by
          intro x hx
          rw [← hname, ownName] at hx
          simpa using List.mem_takeWhile_imp hx
        rw [ownName, List.takeWhile_append_of_pos hall] at hname
        by_contra hb
        simp [hb] at hname
      subst hzero
      exact .inr ⟨rest, by simp⟩

theorem pid?_of_cmdline {entry : ProcEntry} {cmdline : List UInt8} (h : entry.cmdline = some cmdline) :
    entry.pid? name = if entry.isDir = true ∧ utf8 name <+: lossy cmdline then entry.number? else none := by
  have hor : (lossy cmdline = utf8 name ∨ (utf8 name).isPrefixOf (lossy cmdline) = true) ↔ utf8 name <+: lossy cmdline := by
    rw [List.isPrefixOf_iff_prefix]
    exact or_iff_right_of_imp fun heq => heq ▸ List.prefix_refl _
  rw [ProcEntry.pid?, h]
  by_cases hdir : entry.isDir = true
  · rw [if_pos hdir]
    simp only [Option.bind_eq_bind, Option.bind_some, hor, hdir, true_and]
  · rw [if_neg hdir, if_neg fun hboth => hdir hboth.1]

/-- On such entries the two searches find the same process. -/
theorem cxx_findPid_of_ownNames (hascii : ∀ b ∈ utf8 name, b < 128) (hown : OwnNames entries name) {pid : Int32}
    (h : findPid name entries = some pid) : Cxx.findPid name entries = pid ∧ 0 ≤ pid := by
  induction entries with
  | nil => cases h
  | cons entry entries ih =>
    cases entry with
    | none => cases h
    | some entry =>
      have hrest : OwnNames entries name := fun e cmdline he => hown e cmdline (List.mem_cons_of_mem _ he)
      have hentry := hown entry
      rw [findPid] at h
      rw [Cxx.findPid]
      cases hcmdline : entry.cmdline with
      | none =>
        have hnone : entry.pid? name = none := by
          rw [ProcEntry.pid?, hcmdline]
          split <;> rfl
        rw [hnone] at h
        simpa using ih hrest h
      | some cmdline =>
        have hline := hentry cmdline (List.mem_cons_self ..) hcmdline
        have hcxx := own_line_iff fun hpre => (hline hpre).2.1
        by_cases hpre : utf8 name <+: cmdline
        · obtain ⟨hdir, -, number, hnumber, hpos⟩ := hline hpre
          have hpid : entry.pid? name = some number := by
            have hlossy := (isPrefix_lossy_iff hascii cmdline).mpr hpre
            rw [pid?_of_cmdline hcmdline, if_pos ⟨hdir, hlossy⟩, hnumber]
          rw [hpid] at h
          obtain rfl := Option.some.inj h
          simp [hcxx.mpr hpre, hnumber, hpos]
        · have hnone : entry.pid? name = none := by
            have hlossy := mt (isPrefix_lossy_iff hascii cmdline).mp hpre
            rw [pid?_of_cmdline hcmdline, if_neg fun hboth => hlossy hboth.2]
          rw [hnone] at h
          rw [Option.getD_some, Bool.eq_false_iff.mpr (mt hcxx.mp hpre)]
          simpa using ih hrest h

end Process

/-! ### What both programs are given -/

def attachesOf (requests : List Request) : List Request := requests.filter fun r => r.phase = .attach

/-- A device that the two programs see alike. The offsets service tells the system server by its name and keeps to its
    answers; an attach depends on no requests but the attaches before it; no command line only begins like that of
    the system server; and no file with a method has the name of a program that the C++ program skips. -/
structure SeenAlike (dev : Device) (service : MethodDescriptor → Except Int32 (Option ExecutableMethodFileOffsets)) :
    Prop where
  offsets : ∀ requests target method, target.processName = "system_server" →
    dev.offsets requests target method = service method
  perfEventOpen : ∀ requests requests', attachesOf requests = attachesOf requests' →
    dev.perfEventOpen requests = dev.perfEventOpen requests'
  processes : ∀ entries, dev.proc [] = some entries → OwnNames entries "system_server"
  files : ∀ method offsets, service method = .ok (some offsets) → ¬Cxx.Skipped dev.flags offsets.containerPath

/-- A config for the C++ program: the first task is for the system server as it runs, each of its probes is named by
    a class, and on a user build all probes are on the allow list of that program. -/
structure ForCxx (dev : Device) (config : UprobestatsConfig) (task : Task) : Prop where
  read : dev.config = .ok config
  first : config.tasks.head? = some task
  server : task.targetProcessName = some "system_server"
  running : TargetProcessSelection.enumValueOrDefault (task.targetProcessSelection.getD 0) = .specificProcessName ∨
    TargetProcessSelection.enumValueOrDefault (task.targetProcessSelection.getD 0) = .unknown
  probes : task.probeConfigs ≠ []
  classNames : ∀ probe ∈ task.probeConfigs, probe.fullyQualifiedClassName.isSome
  allowed : Cxx.isAllowed Cxx.kAllowedMethodPrefixes config (Cxx.buildType dev) true = true

section Attaches
variable {dev : Device} {pid : Int32}

@[simp] theorem attachesOf_append (rs rs' : List Request) : attachesOf (rs ++ rs') = attachesOf rs ++ attachesOf rs' :=
  List.filter_append ..

theorem phase_ne_attach {r : Request} (h : r.attached? = none) : r.phase ≠ .attach := by
  cases r with
  | perfEventOpen probe filename offset pid path =>
    cases probe with
    | none => simp [Request.phase]
    | some p => cases h
  | _ => simp [Request.phase]

theorem attachesOf_of_phase {phase : Phase} {rs : List Request} (h : OfPhase phase rs) (hne : phase ≠ .attach) :
    attachesOf rs = [] :=
  List.filter_eq_nil_iff.mpr fun r hr => by simpa [h r hr] using hne

theorem ofPhase_polls (mapPaths : List String) : OfPhase .poll (mapPaths.map .pollRegistry) := by
  intro r hr
  obtain ⟨mapPath, -, rfl⟩ := List.mem_map.mp hr
  rfl

theorem ofPhase_attachRequests (ps : List ResolvedProbe) : OfPhase .attach (ps.map (·.attachRequest pid)) := by
  intro r hr
  obtain ⟨p, -, rfl⟩ := List.mem_map.mp hr
  rfl

theorem attachesOf_attachRequests (ps : List ResolvedProbe) :
    attachesOf (ps.map (·.attachRequest pid)) = ps.map (·.attachRequest pid) :=
  List.filter_eq_self.mpr fun r hr => decide_eq_true (ofPhase_attachRequests ps r hr)

/-- A resolved probe as the C++ program has it. -/
def ResolvedProbe.toCxx (p : ResolvedProbe) : Cxx.ResolvedProbe := ⟨p.probe, p.filename, p.offset⟩

/-- The C++ program makes the same request for a probe. -/
theorem cxx_attachRequest {p : ResolvedProbe} (h : p.bpfProgramPath = prefixBpf (p.probe.bpfName.getD "")) :
    Cxx.attachRequest pid p.toCxx = p.attachRequest pid := by
  rw [Cxx.attachRequest, ResolvedProbe.attachRequest, h, ResolvedProbe.toCxx]
  dsimp only
  rw [← h]

/-- What the Rust program attaches, the C++ program gets through as well. -/
theorem cxx_attaches {service : MethodDescriptor → Except Int32 (Option ExecutableMethodFileOffsets)}
    (halike : SeenAlike dev service) : ∀ {ps : List ResolvedProbe} {requests : List Request} {w : World},
    (∀ p ∈ ps, p.bpfProgramPath = prefixBpf (p.probe.bpfName.getD "") ∧ ¬Cxx.Skipped dev.flags p.filename) →
    AttachAll dev pid requests ps → attachesOf requests = attachesOf w.requests →
      ((ps.map (·.toCxx)).forM (Cxx.attach dev pid)).run w =
        .ok ⟨⟩ { w with requests := w.requests ++ ps.map (·.attachRequest pid) }
  | [], _, w, _, _, _ => by simp
  | p :: ps, requests, w, hps, hall, hsame => by
    obtain ⟨⟨hpath, hskip⟩, hps⟩ := List.forall_mem_cons.mp hps
    obtain ⟨⟨-, -, hopen⟩, hall⟩ := hall
    have hrun : (Cxx.attach dev pid p.toCxx).run w =
        .ok ⟨⟩ { w with requests := w.requests ++ [p.attachRequest pid] } := by
      rw [Cxx.run_attach hskip, if_pos ((halike.perfEventOpen _ _ hsame).symm.trans hopen), cxx_attachRequest hpath]
    rw [List.map_cons, forM_cons, EStateM.run_bind, hrun]
    dsimp only
    rw [cxx_attaches halike hps hall (by rw [attachesOf_append, attachesOf_append, hsame])]
    simp

end Attaches

/-! ### What the Rust program resolves -/

/-- A probe is where the offsets service has its method. -/
def ResolvedProbe.Served (service : MethodDescriptor → Except Int32 (Option ExecutableMethodFileOffsets))
    (p : ResolvedProbe) : Prop :=
  ∃ className methodName offsets, p.probe.fullyQualifiedClassName = some className ∧
    p.probe.methodName = some methodName ∧
    service ⟨className, methodName, p.probe.fullyQualifiedParameters⟩ = .ok (some offsets) ∧
    p.filename = offsets.containerPath ∧ p.offset = offsets.methodOffset.toUInt32.toInt32

section Resolve
variable {dev : Device} {service : MethodDescriptor → Except Int32 (Option ExecutableMethodFileOffsets)}
  {config : UprobestatsConfig} {task : ResolvedTask} {w w' : World}

theorem flags_of_readAllowedConfig (h : (readAllowedConfig dev).run w = .ok config w') :
    dev.flags.enableUprobestats = true ∧ dev.flags.executableMethodFileOffsets = true := by
  obtain ⟨_, henable, h⟩ := bind_lift_eq_ok.mp h
  obtain ⟨_, -, h⟩ := bind_lift_eq_ok.mp h
  obtain ⟨_, hoffsets, -⟩ := bind_lift_eq_ok.mp h
  exact ⟨ensure_eq_ok.mp henable, ensure_eq_ok.mp hoffsets⟩

theorem served_resolveProbe (halike : SeenAlike dev service) (hname : task.processName = "system_server")
    {probe : ProbeConfig} (hclass : probe.fullyQualifiedClassName.isSome) {p : ResolvedProbe}
    (h : (resolveProbe dev task probe).run w = .ok p w') : p.probe = probe ∧ p.Served service := by
  obtain ⟨className, hclass⟩ := Option.isSome_iff_exists.mp hclass
  obtain ⟨_, -, h⟩ := bind_lift_eq_ok.mp h
  obtain ⟨_, -, h⟩ := bind_lift_eq_ok.mp h
  rw [hclass] at h
  obtain ⟨p', v, hresolve, h⟩ := bind_eq_ok.mp h
  obtain ⟨_, u, -, h⟩ := bind_eq_ok.mp h
  cases h
  obtain ⟨methodName, hmethod, h⟩ := bind_lift_eq_ok.mp hresolve
  obtain ⟨uid, -, h⟩ := bind_lift_eq_ok.mp h
  obtain ⟨target, htarget, h⟩ := bind_lift_eq_ok.mp h
  obtain ⟨method, hdescriptor, h⟩ := bind_lift_eq_ok.mp h
  obtain rfl := MethodDescriptor.new_eq_ok hdescriptor
  obtain ⟨answer, v, hget, h⟩ := bind_eq_ok.mp h
  obtain ⟨offsets, hoffsets, h⟩ := bind_lift_eq_ok.mp h
  obtain ⟨offset, hoffset, h⟩ := bind_lift_eq_ok.mp h
  obtain ⟨asked, -, hanswer⟩ := getExecutableMethodFileOffsetsWithRetry_ok hget
  cases h
  obtain ⟨_, -, htarget⟩ := andThen_eq_ok.mp htarget
  obtain rfl := Except.ok.inj htarget
  rw [halike.offsets _ _ _ hname, okOr_eq_ok.mp hoffsets] at hanswer
  obtain ⟨-, hoffset⟩ := tryI32_uint64.mp (mapError_eq_ok.mp hoffset)
  exact ⟨rfl, className, methodName, offsets, hclass, okOr_eq_ok.mp hmethod, hanswer, rfl, hoffset⟩

theorem served_mapM_resolveProbe (halike : SeenAlike dev service) (hname : task.processName = "system_server") :
    ∀ {probes : List ProbeConfig} {ps : List ResolvedProbe} {w w' : World},
      (∀ probe ∈ probes, probe.fullyQualifiedClassName.isSome) →
      (probes.mapM (resolveProbe dev task)).run w = .ok ps w' → ∀ p ∈ ps, p.Served service
  | [], _, _, _, _, h => by
    cases h
    simp
  | probe :: probes, _, _, _, hclass, h => by
    obtain ⟨hprobe, hclass⟩ := List.forall_mem_cons.mp hclass
    obtain ⟨p, u, ps, hresolve, hrest, rfl⟩ := mapM_cons_eq_ok.mp h
    have hserved := (served_resolveProbe halike hname hprobe hresolve).2
    exact List.forall_mem_cons.mpr ⟨hserved, served_mapM_resolveProbe halike hname hclass hrest⟩

theorem resolveSingleTask_running {t : Task} (hfor : ForCxx dev config t)
    (h : (resolveSingleTask dev config).run w = .ok task w') :
    task.task = t ∧ task.processName = "system_server" ∧ t.durationSeconds = some task.durationSeconds ∧
      (dev.proc w.requests).bind (findPid "system_server") = some task.pid := by
  obtain ⟨t', ht, h⟩ := bind_lift_eq_ok.mp h
  obtain rfl := Option.some.inj ((okOr_eq_ok.mp ht).symm.trans hfor.first)
  obtain ⟨_, v, hmaps, h⟩ := bind_eq_ok.mp h
  have hensure : Within Eq (t'.bpfMaps.forM (ensureEnabled dev)) := .forM fun _ _ => .lift _
  obtain rfl := hensure.of_ok hmaps
  obtain ⟨_, hduration, h⟩ := bind_lift_eq_ok.mp h
  obtain ⟨_, -, h⟩ := bind_lift_eq_ok.mp h
  obtain ⟨_, -, h⟩ := bind_lift_eq_ok.mp h
  obtain ⟨p, _, hprocess, h⟩ := bind_eq_ok.mp h
  cases h
  obtain ⟨name, hname, hpid, hp, -⟩ := (resolveRunning_eq_ok hfor.running).mp hprocess
  obtain rfl := Option.some.inj (hname.symm.trans hfor.server)
  rw [hp]
  exact ⟨rfl, rfl, okOr_eq_ok.mp hduration, hpid⟩

end Resolve

/-! ### What the C++ program makes of it -/

section Cxx
variable {dev : Device} {service : MethodDescriptor → Except Int32 (Option ExecutableMethodFileOffsets)}
  {config : UprobestatsConfig} {task : Task}

theorem cxx_resolveProbe (reader : List UInt8 → Option JsonLine) (halike : SeenAlike dev service)
    (hflag : dev.flags.executableMethodFileOffsets = true)
    (hserver : task.targetProcessName = some "system_server") {p : ResolvedProbe} (h : p.Served service) (w : World) :
    ∃ w', (Cxx.resolveProbe dev reader task p.probe).run w = .ok p.toCxx w' := by
  obtain ⟨className, methodName, offsets, hclass, hmethod, hservice, hfilename, hoffset⟩ := h
  have hcond : (dev.flags.executableMethodFileOffsets && p.probe.fullyQualifiedClassName.isSome) = true := by
    rw [hflag, hclass]
    rfl
  obtain ⟨w', hask⟩ : ∃ w', (Cxx.getExecutableMethodFileOffsets dev "system_server" className methodName
      p.probe.fullyQualifiedParameters).run w = .ok (some offsets) w' := by
    refine ⟨_, ask_eq_ok.mpr ⟨?_, rfl⟩⟩
    rw [halike.offsets _ _ _ rfl, hservice]
    rfl
  rw [Cxx.resolveProbe, if_pos hcond, hserver, hclass, hmethod, ResolvedProbe.toCxx, hfilename, hoffset]
  exact ⟨w', bind_eq_ok.mpr ⟨some offsets, w', hask, bind_lift_eq_ok.mpr ⟨offsets, rfl, rfl⟩⟩⟩

theorem cxx_mapM_resolveProbe (reader : List UInt8 → Option JsonLine) (halike : SeenAlike dev service)
    (hflag : dev.flags.executableMethodFileOffsets = true)
    (hserver : task.targetProcessName = some "system_server") : ∀ {ps : List ResolvedProbe} (w : World),
    (∀ p ∈ ps, p.Served service) →
      ∃ w', ((ps.map (·.probe)).mapM (Cxx.resolveProbe dev reader task)).run w = .ok (ps.map (·.toCxx)) w'
  | [], w, _ => ⟨w, rfl⟩
  | p :: ps, w, h => by
    obtain ⟨hp, hps⟩ := List.forall_mem_cons.mp h
    obtain ⟨u, hrun⟩ := cxx_resolveProbe reader halike hflag hserver hp w
    obtain ⟨w', hrest⟩ := cxx_mapM_resolveProbe reader halike hflag hserver u hps
    exact ⟨w', mapM_cons_eq_ok.mpr ⟨_, u, _, hrun, hrest, rfl⟩⟩

theorem cxx_resolveSingleTask (hfor : ForCxx dev config task) {seconds : Int32} {entries : List (Option ProcEntry)}
    {pid : Int32} {w : World} (hduration : task.durationSeconds = some seconds)
    (hentries : dev.proc w.requests = some entries) (hpid : Cxx.findPid "system_server" entries = pid) (hpos : 0 ≤ pid) :
    (Cxx.resolveSingleTask dev config).run w = .ok ⟨task, pid⟩ w := by
  have hget : (Cxx.getPid dev "system_server").run w = .ok pid w := by
    rw [Cxx.getPid, run_get_bind, hentries, Option.getD_some, hpid]
    rfl
  refine bind_lift_eq_ok.mpr ⟨task, okOr_eq_ok.mpr hfor.first, ?_⟩
  refine bind_lift_eq_ok.mpr ⟨seconds, okOr_eq_ok.mpr hduration, ?_⟩
  refine bind_lift_eq_ok.mpr ⟨"system_server", okOr_eq_ok.mpr hfor.server, ?_⟩
  refine bind_lift_eq_ok.mpr ⟨(), ensure_eq_ok.mpr (by simp), ?_⟩
  exact bind_eq_ok.mpr ⟨pid, w, hget, bind_lift_eq_ok.mpr ⟨(), ensure_eq_ok.mpr (decide_eq_true hpos), rfl⟩⟩

/-- The C++ program accepts the config with the same process and the same probes. -/
theorem cxx_accept (reader : List UInt8 → Option JsonLine) (halike : SeenAlike dev service)
    (hfor : ForCxx dev config task) {interfaces : InterfacesMap}
    {resolved : ResolvedTask} {ps : List ResolvedProbe} {t : World}
    (hat : ResolvedAt dev interfaces resolved ps t) :
    resolved.task = task ∧ (∀ p ∈ ps, p.Served service) ∧ ∃ w', (Cxx.accept dev reader).run { interfaces } =
      .ok (⟨task, resolved.pid⟩, ps.map (·.toCxx)) w' ∧ attachesOf w'.requests = [] := by
  obtain ⟨config', u, hread, hresolve, hprobes⟩ := hat.run
  obtain ⟨hconfig, -⟩ := readAllowedConfig_ok hread
  obtain rfl := Except.ok.inj (hconfig.symm.trans hfor.read)
  obtain ⟨henable, hflag⟩ := flags_of_readAllowedConfig hread
  obtain ⟨rfl, hname, hduration, hpid⟩ := resolveSingleTask_running hfor hresolve
  obtain ⟨entries, hentries, hfind⟩ := Option.bind_eq_some_iff.mp hpid
  have hall : (utf8 "system_server").all (fun b => decide (b < 128)) = true := by decide
  obtain ⟨hcxx, hpos⟩ := cxx_findPid_of_ownNames (fun b hb => of_decide_eq_true (List.all_eq_true.mp hall b hb))
    (halike.processes entries hentries) hfind
  have hserved := served_mapM_resolveProbe halike hname hfor.classNames hprobes
  obtain ⟨heq, -⟩ := mapM_resolveProbe_program hprobes
  obtain ⟨w', hmapM⟩ := cxx_mapM_resolveProbe reader halike hflag hfor.server { interfaces } hserved
  refine ⟨rfl, hserved, w', ?_⟩
  have hrun : (Cxx.accept dev reader).run { interfaces } = .ok (⟨resolved.task, resolved.pid⟩, ps.map (·.toCxx)) w' := by
    have hall : (Cxx.resolveProbes dev reader resolved.task).run { interfaces } = .ok (ps.map (·.toCxx)) w' := by
      refine bind_lift_eq_ok.mpr ⟨(), ensure_eq_ok.mpr (by simpa using hfor.probes), ?_⟩
      rw [← heq]
      exact hmapM
    refine bind_lift_eq_ok.mpr ⟨(), ensure_eq_ok.mpr henable, bind_lift_eq_ok.mpr ⟨config', hfor.read, ?_⟩⟩
    refine bind_lift_eq_ok.mpr ⟨(), ensure_eq_ok.mpr (by rw [hflag]; exact hfor.allowed), ?_⟩
    refine bind_eq_ok.mpr ⟨_, _, cxx_resolveSingleTask hfor hduration hentries hcxx hpos, ?_⟩
    exact bind_eq_ok.mpr ⟨_, w', hall, rfl⟩
  obtain ⟨rs, hrs, hnone⟩ := Cxx.attachesNothing_accept.of_ok hrun
  refine ⟨hrun, List.filter_eq_nil_iff.mpr fun r hr => ?_⟩
  rw [hrs, List.nil_append] at hr
  simpa using phase_ne_attach (hnone r hr)

theorem within_cxx_attach (pid : Int32) (probe : Cxx.ResolvedProbe) :
    Within (Asked fun _ => True) (Cxx.attach dev pid probe) := by
  intro w
  by_cases hskip : Cxx.Skipped dev.flags probe.filename
  · rw [Cxx.attach_of_skipped hskip]
    exact refl_of _ w
  · rw [Cxx.run_attach hskip]
    split <;> exact ⟨[Cxx.attachRequest pid probe], rfl, fun _ _ => trivial⟩

/-- Where the Rust program stops at a probe, the C++ program has attached the ones before it and comes to that one. -/
theorem cxx_attaches_before (halike : SeenAlike dev service) {pid : Int32} {before rest : List ResolvedProbe}
    {p : ResolvedProbe} {requests : List Request} {w : World}
    (hps : ∀ q ∈ before ++ p :: rest,
      q.bpfProgramPath = prefixBpf (q.probe.bpfName.getD "") ∧ ¬Cxx.Skipped dev.flags q.filename)
    (hbefore : AttachAll dev pid requests before) (hsame : attachesOf requests = attachesOf w.requests) :
    ∃ more, (after ((((before ++ p :: rest).map (·.toCxx)).forM (Cxx.attach dev pid)).run w)).requests =
      w.requests ++ (before ++ [p]).map (·.attachRequest pid) ++ more := by
  obtain ⟨hpath, hskip⟩ := hps p (by simp)
  have hrun := cxx_attaches halike (fun q hq => hps q (List.mem_append_left _ hq)) hbefore hsame
  rw [List.map_append, run_forM_append_of_ok hrun, List.map_cons, forM_cons, EStateM.run_bind, Cxx.run_attach hskip,
    cxx_attachRequest hpath]
  have hrest : Within (Asked fun _ => True) ((rest.map (·.toCxx)).forM (Cxx.attach dev pid)) :=
    .forM fun probe _ => within_cxx_attach pid probe
  have hgrows (v : World) (hv : v.requests = w.requests ++ (before ++ [p]).map (·.attachRequest pid)) :
      ∃ more, (after (((rest.map (·.toCxx)).forM (Cxx.attach dev pid)).run v)).requests =
        w.requests ++ (before ++ [p]).map (·.attachRequest pid) ++ more := by
    obtain ⟨more, hmore, -⟩ := hrest v
    exact ⟨more, by rw [hmore, hv]⟩
  by_cases hopen : dev.perfEventOpen (w.requests ++ before.map (·.attachRequest pid)) = 0
  · rw [if_pos hopen]
    exact hgrows _ (by simp)
  · rw [if_neg hopen]
    exact ⟨[], by simp⟩

/-- A thread is started for a map, up to the one of a program that is not there. -/
theorem mem_threads_iff {bpfMaps : List String} {mapPath : String}
    (h : mapPath ≠ prefixBpf "map_MalwareSignal_output_buf") :
    mapPath ∈ Cxx.threads dev bpfMaps ↔ mapPath ∈ bpfMaps.map prefixBpf := by
  simp only [Cxx.threads, List.mem_map, List.mem_filter]
  constructor
  · rintro ⟨name, ⟨hname, -⟩, rfl⟩
    exact ⟨name, hname, rfl⟩
  · rintro ⟨name, hname, rfl⟩
    have hne : name ≠ "map_MalwareSignal_output_buf" := fun heq => h (heq ▸ rfl)
    exact ⟨name, ⟨hname, by simp [hne]⟩, rfl⟩

theorem mem_polled_iff {asked cleared : List Request} {ps : List ResolvedProbe} {pid : Int32} {mapPaths : List String}
    {mapPath : String} (hasked : OfPhase .resolve asked) (hcleared : OfPhase .clear cleared) :
    .pollRegistry mapPath ∈ asked ++ ps.map (·.attachRequest pid) ++ mapPaths.map .pollRegistry ++ cleared ↔
      mapPath ∈ mapPaths := by
  have hnot {phase : Phase} {rs : List Request} (h : OfPhase phase rs) (hne : phase ≠ .poll) :
      .pollRegistry mapPath ∉ rs := fun hmem => hne (h _ hmem).symm
  simp only [List.mem_append, hnot hasked (by decide), hnot (ofPhase_attachRequests ps) (by decide),
    hnot hcleared (by decide), false_or, or_false, List.mem_map, Request.pollRegistry.injEq, exists_eq_right]

end Cxx

/-! ### The runs -/

/-- On a config for the C++ program the Rust program attaches nothing that the C++ program does not attach, nor in
    another order; and where it succeeds, the C++ program attaches just the same, and starts threads for the maps that
    the Rust program polls, up to the map of a program that is not there. -/
theorem mains_attach_alike {dev : Device} {config : UprobestatsConfig} {task : Task}
    {service : MethodDescriptor → Except Int32 (Option ExecutableMethodFileOffsets)} (halike : SeenAlike dev service)
    (hfor : ForCxx dev config task) (reader : List UInt8 → Option JsonLine) (interfaces : InterfacesMap) :
    let rust := (mainImpl dev).run { interfaces }
    let cxx := (Cxx.main dev reader).run { interfaces }
    attachesOf (after rust).requests <+: attachesOf (after cxx).requests ∧
      (isOk rust = true → attachesOf (after rust).requests = attachesOf (after cxx).requests ∧
        ∃ maps, value? cxx = some maps ∧ ∀ mapPath, mapPath ≠ prefixBpf "map_MalwareSignal_output_buf" →
          (mapPath ∈ maps ↔ .pollRegistry mapPath ∈ (after rust).requests)) := by
  intro rust cxx
  rcases mainImpl_cases dev interfaces with
    ⟨hok, asked, cleared, hasked, hcleared, hrequests⟩ | ⟨resolved, ps, t, cleared, hat, hcleared, hrequests, hok⟩
  · refine ⟨?_, fun h => absurd (hok.symm.trans h) Bool.false_ne_true⟩
    rw [show (after rust).requests = _ from hrequests, attachesOf_append, attachesOf_of_phase hasked (by decide),
      attachesOf_of_phase hcleared (by decide)]
    exact List.nil_prefix
  · obtain ⟨rfl, hserved, w', haccept, hnone⟩ := cxx_accept reader halike hfor hat
    obtain ⟨_, u, -, hresolve, -⟩ := hat.run
    obtain ⟨⟨duration, hduration⟩, hmaps⟩ := resolveSingleTask_duration hresolve
    have hps : ∀ p ∈ ps, p.bpfProgramPath = prefixBpf (p.probe.bpfName.getD "") ∧
        ¬Cxx.Skipped dev.flags p.filename := by
      intro p hp
      obtain ⟨bpfName, hname, hpath⟩ := hat.resolves.program p hp
      obtain ⟨_, _, offsets, -, -, hservice, hfilename, -⟩ := hserved p hp
      exact ⟨by rw [hpath, hname]; rfl, hfilename ▸ halike.files _ _ hservice⟩
    have hsame : attachesOf t.requests = attachesOf w'.requests := by
      rw [hnone, attachesOf_of_phase hat.requests (by decide)]
    have hcxx : cxx = ((ps.map (·.toCxx)).forM (Cxx.attach dev resolved.pid) >>= fun _ =>
        pure (Cxx.threads dev resolved.task.bpfMaps)).run w' := by
      rw [show cxx = (Cxx.main dev reader).run { interfaces } from rfl, Cxx.main, EStateM.run_bind, haccept]
    rcases run_runTask hduration ps t with
      ⟨hattached, hrun, hend⟩ | ⟨before, p, rest, rfl, hbefore, hp, hrun, hend⟩
    · have hrust : attachesOf (after rust).requests = ps.map (·.attachRequest resolved.pid) := by
        rw [show (after rust).requests = _ from hrequests, hrun, attachesOf_append, attachesOf_append, attachesOf_append,
          attachesOf_of_phase hat.requests (by decide), attachesOf_of_phase hcleared (by decide),
          attachesOf_of_phase (ofPhase_polls resolved.bpfMapPaths) (by decide), attachesOf_attachRequests,
          List.nil_append, List.append_nil, List.append_nil]
      have hloop := cxx_attaches halike hps hattached hsame
      have hattaches : attachesOf (after cxx).requests = ps.map (·.attachRequest resolved.pid) := by
        rw [hcxx, after_bind_pure, hloop, after_ok, attachesOf_append, hnone, attachesOf_attachRequests, List.nil_append]
      refine ⟨by rw [hrust, hattaches], fun _ => ⟨by rw [hrust, hattaches], Cxx.threads dev resolved.task.bpfMaps, ?_, ?_⟩⟩
      · rw [hcxx, EStateM.run_bind, hloop]
        rfl
      · intro mapPath hother
        rw [mem_threads_iff hother, show (after rust).requests = _ from hrequests, hrun,
          mem_polled_iff hat.requests hcleared,
          hmaps, List.mem_dedup]
    · have hrust : attachesOf (after rust).requests = (before ++ [p]).map (·.attachRequest resolved.pid) := by
        rw [show (after rust).requests = _ from hrequests, hrun, attachesOf_append, attachesOf_append,
          attachesOf_of_phase hat.requests (by decide), attachesOf_of_phase hcleared (by decide),
          attachesOf_attachRequests, List.nil_append, List.append_nil]
      obtain ⟨more, hmore⟩ := cxx_attaches_before halike hps hbefore hsame
      refine ⟨?_, fun h => absurd ((hok.trans hend).symm.trans h) Bool.false_ne_true⟩
      rw [hrust, hcxx, after_bind_pure, hmore, attachesOf_append, attachesOf_append, hnone, List.nil_append,
        attachesOf_attachRequests]
      exact List.prefix_append _ _

theorem mains_attach_alike_on_oomAdjuster :
    let dev := quietDevice (oneTask [oomAdjusterProbe])
    attachesOf (after ((mainImpl dev).run ⟨.empty, false, [], []⟩)).requests = [oomAdjusterAttach] ∧
      oomAdjusterAttach ∈ attachesOf (after ((Cxx.main dev fun _ => none).run ⟨.empty, false, [], []⟩)).requests := by
  intro dev
  have hattach : attachesOf (after ((mainImpl dev).run ⟨.empty, false, [], []⟩)).requests = [oomAdjusterAttach] := by
    decide +kernel
  have halike : SeenAlike dev fun _ => .ok (some ⟨"/system/framework/oat/arm64/services.odex", 4096⟩) := by
    refine ⟨fun _ _ _ _ => rfl, fun _ _ _ => rfl, fun entries hentries entry cmdline hmem hcmdline _ => ?_, ?_⟩
    · cases hentries
      obtain rfl : entry = _ := Option.some.inj (List.mem_singleton.mp hmem)
      cases hcmdline
      exact ⟨rfl, by decide, 100, by decide, by decide⟩
    · intro method offsets h
      cases h
      decide
  have hfor : ForCxx dev (oneTask [oomAdjusterProbe]) ((oneTask [oomAdjusterProbe]).tasks.getD 0 {}) :=
    ⟨rfl, rfl, rfl, .inl rfl, by decide, by decide, by decide +kernel⟩
  have hle := (mains_attach_alike halike hfor (fun _ => none) .empty).1
  exact ⟨hattach, hle.subset (hattach ▸ List.mem_singleton_self _)⟩

end UprobeStats
