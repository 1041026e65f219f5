import UprobeStats.Cxx.Main
import UprobeStats.Theorems.Requests

/-! The feature flags of the C++ program and its attaches. The gates of `main` look at the file of a probe and
    not at its program, so a probe is attached whatever the flag of its program says. -/

namespace UprobeStats
open Rust Effect

/-- The probe that an attach is for. -/
def Request.attached? : Request → Option ResolvedProbe
  | .perfEventOpen probe _ _ _ _ => probe
  | _ => none

/-- The flag of a program is off. -/
def Flags.Gated (flags : Flags) (bpfName : String) : Prop :=
  (bpfName = Cxx.updateDeviceIdleTempAllowlist ∧ flags.uprobestatsSupportUpdateDeviceIdleTempAllowlist = false) ∨
    ((bpfName = Cxx.addBoundClientUid ∨ bpfName = Cxx.setComponentEnabledSetting) ∧
      flags.uprobestatsMonitorDisruptiveAppActivities = false)

instance (flags : Flags) (bpfName : String) : Decidable (flags.Gated bpfName) := by
  unfold Flags.Gated
  infer_instance

/-- No attach is for a probe whose program is gated. -/
def GatesKept (flags : Flags) (requests : List Request) : Prop :=
  ∀ r ∈ requests, ∀ p, r.attached? = some p → ¬flags.Gated (p.probe.bpfName.getD "")

namespace Cxx

/-- A file that the attach loop skips. -/
def Skipped (flags : Flags) (filename : String) : Prop :=
  (filename = addBoundClientUid ∨ filename = setComponentEnabledSetting) ∧
    flags.uprobestatsMonitorDisruptiveAppActivities = false

instance (flags : Flags) (filename : String) : Decidable (Skipped flags filename) := by
  unfold Skipped
  infer_instance

def attachRequest (pid : Int32) (probe : ResolvedProbe) : Request :=
  .perfEventOpen (some ⟨probe.probeConfig, probe.filename, probe.offset, prefixBpf (probe.probeConfig.bpfName.getD "")⟩)
    probe.filename probe.offset pid (prefixBpf (probe.probeConfig.bpfName.getD ""))

/-- The attach loop gets through some probes: each attach that it makes for them succeeds. -/
def GetsThrough (dev : Device) (pid : Int32) : List Request → List ResolvedProbe → Prop
  | _, [] => True
  | requests, probe :: probes =>
    if Skipped dev.flags probe.filename then GetsThrough dev pid requests probes
    else dev.perfEventOpen requests = 0 ∧ GetsThrough dev pid (requests ++ [attachRequest pid probe]) probes

/-! ### Before the attach loop -/

/-- The program attaches nothing. -/
abbrev AttachesNothing {α : Type} (x : Prog α) : Prop := Within (OnlyAsked fun r => r.attached? = none) x

section Accept
variable {dev : Device} {reader : List UInt8 → Option JsonLine}

theorem attachesNothing_ask {α : Type} {r : Request} {answer : List Request → Except Error α} (h : r.attached? = none) :
    AttachesNothing (ask r answer) := within_ask h

theorem attachesNothing_findInOatFiles (methodSignature : String) : ∀ (filePaths : List String) (offset : Int32),
    AttachesNothing (findInOatFiles dev reader methodSignature filePaths offset)
  | [], _ => Within.pure _
  | filePath :: filePaths, _ => by
    have hfile : AttachesNothing (getMethodOffsetFromOatdump dev reader filePath methodSignature) :=
      attachesNothing_ask rfl
    refine Within.bind hfile fun offset => ?_
    split
    · exact Within.pure _
    · exact attachesNothing_findInOatFiles methodSignature filePaths offset

theorem attachesNothing_resolveProbe (taskConfig : Task) (probeConfig : ProbeConfig) :
    AttachesNothing (resolveProbe dev reader taskConfig probeConfig) := by
  have hoffsets (processName fqcn methodName : String) (fqParameters : List String) :
      AttachesNothing (getExecutableMethodFileOffsets dev processName fqcn methodName fqParameters) :=
    attachesNothing_ask rfl
  unfold resolveProbe
  split
  · exact Within.bind (hoffsets _ _ _ _) fun _ => (Within.lift _).bind fun _ => Within.pure _
  · exact Within.bind (attachesNothing_findInOatFiles _ _ _) fun _ => (Within.lift _).bind fun _ => Within.pure _

theorem attachesNothing_resolveSingleTask (config : UprobestatsConfig) :
    AttachesNothing (resolveSingleTask dev config) := by
  have hpid (processName : String) : AttachesNothing (getPid dev processName) :=
    Within.get.bind fun _ => Within.pure _
  refine (Within.lift _).bind fun _ => (Within.lift _).bind fun _ => (Within.lift _).bind fun _ => ?_
  exact (Within.lift _).bind fun _ => Within.bind (hpid _) fun _ => (Within.lift _).bind fun _ => Within.pure _

/-- A config is accepted, or not, before anything is attached. -/
theorem attachesNothing_accept : AttachesNothing (accept dev reader) := by
  refine (Within.lift _).bind fun _ => (Within.lift _).bind fun config => (Within.lift _).bind fun _ => ?_
  refine Within.bind (attachesNothing_resolveSingleTask config) fun task => ?_
  have hprobes : AttachesNothing (resolveProbes dev reader task.taskConfig) :=
    (Within.lift _).bind fun _ => Within.mapM fun probe _ => attachesNothing_resolveProbe task.taskConfig probe
  exact Within.bind hprobes fun _ => Within.pure _

end Accept

/-! ### The attach loop -/

section Attach
variable {dev : Device} {pid : Int32} {probe : ResolvedProbe} {w : World}

theorem attach_of_skipped (h : Skipped dev.flags probe.filename) : (attach dev pid probe).run w = .ok ⟨⟩ w := by
  obtain ⟨hname, hoff⟩ := h
  rw [attach]
  rcases hname with hname | hname <;> simp [hname, hoff]

theorem attach_eq (h : ¬Skipped dev.flags probe.filename) : attach dev pid probe = (do
    let openResult ← bpfPerfEventOpen dev probe pid (prefixBpf (probe.probeConfig.bpfName.getD ""))
    lift (ensure (openResult = 0) "Failed to open bpf")) := by
  rw [Skipped, not_and_or, not_or] at h
  rw [attach]
  rcases h with ⟨hadd, hset⟩ | hon
  · rw [if_neg fun h => hadd h.1, if_neg fun h => hset h.1]
  · rw [Bool.not_eq_false] at hon
    simp [hon]

/-- A probe that is not skipped is attached, and its failure ends the loop. -/
theorem run_attach (h : ¬Skipped dev.flags probe.filename) : (attach dev pid probe).run w =
    if dev.perfEventOpen w.requests = 0 then .ok ⟨⟩ { w with requests := w.requests ++ [attachRequest pid probe] }
    else .error (.message "Failed to open bpf") { w with requests := w.requests ++ [attachRequest pid probe] } := by
  have hask : (bpfPerfEventOpen dev probe pid (prefixBpf (probe.probeConfig.bpfName.getD ""))).run w =
      .ok (dev.perfEventOpen w.requests) { w with requests := w.requests ++ [attachRequest pid probe] } :=
    ask_eq_ok.mpr ⟨rfl, rfl⟩
  rw [attach_eq h, EStateM.run_bind, hask]
  by_cases hopen : dev.perfEventOpen w.requests = 0
  · rw [if_pos hopen]
    simp [hopen, ensure, run_lift]
  · rw [if_neg hopen]
    simp [hopen, ensure, run_lift]

theorem exists_split_cons {α : Type} {P : List α → Prop} {Q : α → Prop} {a : α} {as : List α} :
    (∃ before x rest, a :: as = before ++ x :: rest ∧ P before ∧ Q x) ↔
      (P [] ∧ Q a) ∨ ∃ before x rest, as = before ++ x :: rest ∧ P (a :: before) ∧ Q x := by
  constructor
  · rintro ⟨before, x, rest, h, hP, hQ⟩
    cases before with
    | nil =>
      obtain ⟨rfl, -⟩ := List.cons.inj h
      exact .inl ⟨hP, hQ⟩
    | cons b before =>
      obtain ⟨rfl, htail⟩ := List.cons.inj h
      exact .inr ⟨before, x, rest, htail, hP, hQ⟩
  · rintro (⟨hP, hQ⟩ | ⟨before, x, rest, rfl, hP, hQ⟩)
    · exact ⟨[], a, as, rfl, hP, hQ⟩
    · exact ⟨a :: before, x, rest, rfl, hP, hQ⟩

/-- The attaches of the loop: each probe that is not skipped, where the loop gets through those before it. -/
theorem mem_after_attaches {probes : List ResolvedProbe} {r : Request} :
    r ∈ (after ((probes.forM (attach dev pid)).run w)).requests ↔ r ∈ w.requests ∨ ∃ before probe rest,
      probes = before ++ probe :: rest ∧ GetsThrough dev pid w.requests before ∧
        ¬Skipped dev.flags probe.filename ∧ r = attachRequest pid probe := by
  induction probes generalizing w with
  | nil =>
    rw [run_forM_nil, after_ok]
    simp
  | cons p ps ih =>
    rw [exists_split_cons, forM_cons, EStateM.run_bind]
    by_cases hskip : Skipped dev.flags p.filename
    · rw [attach_of_skipped hskip]
      simp only [ih, GetsThrough, hskip, ↓reduceIte, not_true, false_and, and_false, false_or]
    · rw [run_attach hskip]
      by_cases hopen : dev.perfEventOpen w.requests = 0
      · rw [if_pos hopen]
        simp only [ih, GetsThrough, hskip, hopen, ↓reduceIte, not_false_eq_true, true_and, List.mem_append,
          List.mem_singleton, or_assoc]
      · rw [if_neg hopen]
        simp only [after_error, GetsThrough, hskip, hopen, ↓reduceIte, not_false_eq_true, true_and, false_and,
          and_false, exists_false, or_false, List.mem_append, List.mem_singleton]

end Attach

/-- No attach is for a gated program just when each probe with a gated program that the loop comes to is in a
    file that the loop skips, which a file is only by bearing the name of a program of `MalwareSignal`. -/
theorem gatesKept_iff_skipped {dev : Device} {reader : List UInt8 → Option JsonLine} {w w' : World}
    {task : ResolvedTask} {probes : List ResolvedProbe} (hw : w.requests = [])
    (haccepted : (accept dev reader).run w = .ok (task, probes) w') :
    GatesKept dev.flags (after ((main dev reader).run w)).requests ↔
      ∀ before probe rest, probes = before ++ probe :: rest → GetsThrough dev task.pid w'.requests before →
        dev.flags.Gated (probe.probeConfig.bpfName.getD "") → Skipped dev.flags probe.filename := by
  obtain ⟨rs, rfl, hrs⟩ := attachesNothing_accept.of_ok haccepted
  have hafter : (after ((main dev reader).run w)).requests =
      (after ((probes.forM (attach dev task.pid)).run { w with requests := w.requests ++ rs })).requests := by
    rw [main, EStateM.run_bind, haccepted]
    dsimp only
    rw [EStateM.run_bind]
    cases (probes.forM (attach dev task.pid)).run { w with requests := w.requests ++ rs } <;> rfl
  simp only [GatesKept, hafter, mem_after_attaches]
  constructor
  · intro h before probe rest hprobes hthrough hgated
    by_contra hskip
    exact h _ (.inr ⟨before, probe, rest, hprobes, hthrough, hskip, rfl⟩) _ rfl hgated
  · rintro h r (hr | ⟨before, probe, rest, hprobes, hthrough, hskip, rfl⟩) p hp hgated
    · rw [hw, List.nil_append] at hr
      rw [hrs r hr] at hp
      cases hp
    · obtain rfl := Option.some.inj hp
      exact hskip (h before probe rest hprobes hthrough hgated)

/-- The device with the flags of the gated programs off. -/
def gatedDevice (config : UprobestatsConfig) : Device :=
  { quietDevice config with flags := { allFlags with
      uprobestatsSupportUpdateDeviceIdleTempAllowlist := false
      uprobestatsMonitorDisruptiveAppActivities := false } }

def idleAllowlistProbe (bpfName : String) : ProbeConfig where
  bpfName := some bpfName
  fullyQualifiedClassName := some "com.android.server.am.ActivityManagerService$LocalService"
  methodName := some "updateDeviceIdleTempAllowlist"

theorem gatesKept_of_ungated :
    let dev := gatedDevice (oneTask [idleAllowlistProbe "prog_GenericInstrumentation_uprobe_call_timestamp_1"])
    GatesKept dev.flags (after ((main dev fun _ => none).run ⟨.empty, false, [], []⟩)).requests := by
  intro dev
  have hok : ((value? ((accept dev fun _ => none).run ⟨.empty, false, [], []⟩)).any fun accepted =>
      accepted.2.all fun p => !dev.flags.Gated (p.probeConfig.bpfName.getD "")) = true := by decide +kernel
  obtain ⟨⟨task, probes⟩, w', haccepted, hprobes⟩ := exists_of_any_value? hok
  refine (gatesKept_iff_skipped rfl haccepted).mpr fun before probe rest hsplit _ hgated => ?_
  have := List.all_eq_true.mp hprobes probe (by simp [hsplit])
  simp [hgated] at this

/-- The program of `updateDeviceIdleTempAllowlist` is attached with its flag off. -/
theorem not_gatesKept_of_idleAllowlist :
    let dev := gatedDevice (oneTask [idleAllowlistProbe updateDeviceIdleTempAllowlist])
    ¬GatesKept dev.flags (after ((main dev fun _ => none).run ⟨.empty, false, [], []⟩)).requests := by
  intro dev hkept
  have hmem : attachRequest 100 ⟨idleAllowlistProbe updateDeviceIdleTempAllowlist,
      "/system/framework/oat/arm64/services.odex", 4096⟩ ∈
        (after ((main dev fun _ => none).run ⟨.empty, false, [], []⟩)).requests := by
    decide +kernel
  exact hkept _ hmem _ rfl (.inl ⟨rfl, rfl⟩)

end Cxx
end UprobeStats
