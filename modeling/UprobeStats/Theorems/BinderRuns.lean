import UprobeStats.Theorems.BinderCleanup
import UprobeStats.Theorems.BinderFilter

/-! Binder filters from run to run. The map outlives the runs, and a run starts on what the runs before it
    left there: nothing when they ended with clean names only, or were killed while the map was empty. -/

namespace UprobeStats
open Rust Effect Text

/-! ### The history -/

/-- A run of the program on a device. It ends, or it is killed when it has changed the map so many times. -/
structure EarlierRun where
  dev : Device
  killedAt : Option Nat

/-- The map after a run that found the map given. -/
def EarlierRun.leaves (run : EarlierRun) (m : InterfacesMap) : InterfacesMap :=
  let w := after ((mainImpl run.dev).run { interfaces := m })
  match run.killedAt with
  | none => w.interfaces
  | some changes => (w.contents.take changes).getLastD m

/-- The map after the runs, the first of which found it empty. -/
@[irreducible] def left (history : List EarlierRun) : InterfacesMap := history.foldl (fun m run => run.leaves m) .empty

/-- A run that ends stores clean names only; one that is killed has nothing in the map at that time. -/
def EarlierRun.Clears (run : EarlierRun) : Prop :=
  match run.killedAt with
  | none => ∀ name ∈ configuredNames run.dev,
      toCKey name ∈ (stopped run.dev { interfaces := .empty }).interfaces.keys → CleanName name
  | some _ => run.leaves .empty = .empty

theorem EarlierRun.leaves_empty {run : EarlierRun} (h : run.Clears) : run.leaves .empty = .empty := by
  obtain ⟨dev, killedAt⟩ := run
  cases killedAt with
  | none => exact (interfaces_empty_iff dev).2.mpr h
  | some changes => exact h

theorem left_eq_empty {history : List EarlierRun} (h : ∀ run ∈ history, run.Clears) : left history = .empty := by
  unfold left
  induction history with
  | nil => rfl
  | cons run history ih =>
    obtain ⟨hrun, hrest⟩ := List.forall_mem_cons.mp h
    rw [List.foldl_cons, EarlierRun.leaves_empty hrun]
    exact ih hrest

/-! ### The new task -/

def ProbeConfig.isBinder (probe : ProbeConfig) : Bool :=
  probe.bpfName.any fun bpfName => contains (prefixBpf bpfName) binderBpfProgramName

/-- A Binder probe on the class-name path: its filters are written when it is resolved. -/
def ProbeConfig.isArmed (probe : ProbeConfig) : Bool := probe.isBinder && probe.fullyQualifiedClassName.isSome

def Task.armedFilters (task : Task) : List BinderTransactionFilter :=
  (task.probeConfigs.filter (·.isArmed)).flatMap (·.binderTransactionFilters)

def Task.binderFilters (task : Task) : List BinderTransactionFilter :=
  (task.probeConfigs.filter (·.isBinder)).flatMap (·.binderTransactionFilters)

/-- The Binder probes are on the class-name path, with different plain interface names and non-empty lists of
    at most ten positive method ids. -/
structure WellFiltered (task : Task) : Prop where
  className : ∀ probe ∈ task.probeConfigs, probe.isBinder = true → probe.fullyQualifiedClassName.isSome
  named : ∀ filter ∈ task.binderFilters, ∃ name, filter.interfaceName = some name ∧ PlainName name
  distinct : (task.binderFilters.map (·.interfaceName)).Nodup
  ids : ∀ filter ∈ task.binderFilters,
    filter.methodIds ≠ [] ∧ filter.methodIds.length ≤ 10 ∧ ∀ id ∈ filter.methodIds, 0 < id.toInt

/-- What the earlier runs left does not show: a task that is accepted on an empty map is accepted, and then
    the map holds exactly the entries of its filters. -/
def Unaffected (dev : Device) (task : ResolvedTask) (w : World) : Prop :=
  (isOk ((resolveProbes dev task).run { w with interfaces := .empty }) = true →
      isOk ((resolveProbes dev task).run w) = true) ∧
    ∀ probes w', (resolveProbes dev task).run w = .ok probes w' →
      ∀ k v, w'.interfaces.lookup k = some v ↔ (k, v) ∈ task.task.binderFilters.filterMap (·.stored?)

section NewTask
variable {dev : Device} {task : ResolvedTask} {w w' : World}

theorem OnlyAsked.interfaces_eq {φ : Request → Prop} (h : OnlyAsked φ w w') : w'.interfaces = w.interfaces := by
  obtain ⟨rs, rfl, -⟩ := h
  rfl

theorem interfaces_ensureAccessor {r : PUnit} (h : (ensureAccessor dev).run w = .ok r w') :
    w'.interfaces = w.interfaces := by
  unfold ensureAccessor at h
  rw [bind_get_eq_ok] at h
  split at h
  · obtain ⟨-, rfl⟩ := pure_eq_ok.mp h
    rfl
  · obtain ⟨_, v, hask, h⟩ := bind_eq_ok.mp h
    obtain ⟨-, rfl⟩ := ask_eq_ok.mp hask
    cases h
    rfl

/-- What is known of a probe that was resolved, on whichever branch. -/
structure ResolvedProbe.Genuine (p : ResolvedProbe) : Prop where
  binder_eq : contains p.bpfProgramPath binderBpfProgramName = p.probe.isBinder
  stored : p.probe.isArmed = true → p.probe.binderTransactionFilters ≠ [] ∧
    ∀ filter ∈ p.probe.binderTransactionFilters, filter.stored?.isSome

theorem genuine_resolveProbe {probe : ProbeConfig} {p : ResolvedProbe}
    (h : (resolveProbe dev task probe).run w = .ok p w') :
    p.probe = probe ∧ p.Genuine ∧
      Inserts (if probe.isArmed then probe.binderTransactionFilters.filterMap (·.stored?) else [])
        w.interfaces w'.interfaces := by
  obtain ⟨bpfName, hname, h⟩ := bind_lift_eq_ok.mp h
  obtain ⟨_, -, h⟩ := bind_lift_eq_ok.mp h
  have hbinder : contains (prefixBpf bpfName) binderBpfProgramName = probe.isBinder := by
    rw [ProbeConfig.isBinder, okOr_eq_ok.mp hname]
    rfl
  cases hclassName : probe.fullyQualifiedClassName with
  | none =>
    rw [hclassName] at h
    have hnot : ¬probe.isArmed = true := by simp [ProbeConfig.isArmed, hclassName]
    obtain ⟨rfl, hpath⟩ := resolveByOatdump_ok h
    refine ⟨rfl, ⟨hpath ▸ hbinder, fun harmed => absurd harmed hnot⟩, ?_⟩
    rw [if_neg hnot, ((within_resolveByOatdump _ _).of_ok h).interfaces_eq]
    exact .refl _
  | some className =>
    rw [hclassName] at h
    have harmed : probe.isArmed = probe.isBinder := by simp [ProbeConfig.isArmed, hclassName]
    obtain ⟨p', v, hresolve, h⟩ := bind_eq_ok.mp h
    obtain ⟨_, u, harm, h⟩ := bind_eq_ok.mp h
    cases h
    obtain ⟨rfl, hpath, -⟩ := resolveByOffsetsApi_ok hresolve
    rw [← hpath] at hbinder
    rw [← ((inquiry_resolveByOffsetsApi _ _ _ _).of_ok hresolve).interfaces_eq, harmed]
    rw [armBinder, hbinder] at harm
    split at harm
    · rename_i hyes
      obtain ⟨_, t, hopen, harm⟩ := bind_eq_ok.mp harm
      obtain ⟨hne, hstored, hinserts⟩ := writeBinderTransactionFilter_ok harm
      rw [if_pos hyes, ← interfaces_ensureAccessor hopen]
      exact ⟨rfl, ⟨hbinder, fun _ => ⟨hne, hstored⟩⟩, hinserts⟩
    · rename_i hnot
      obtain ⟨-, rfl⟩ := pure_eq_ok.mp harm
      rw [if_neg hnot]
      exact ⟨rfl, ⟨hbinder, fun hyes => absurd (harmed ▸ hyes) hnot⟩, .refl _⟩

theorem genuine_mapM_resolveProbe : ∀ {probes : List ProbeConfig} {ps : List ResolvedProbe} {w w' : World},
    (probes.mapM (resolveProbe dev task)).run w = .ok ps w' →
      ps.map (·.probe) = probes ∧ (∀ p ∈ ps, p.Genuine) ∧
        Inserts (((probes.filter (·.isArmed)).flatMap (·.binderTransactionFilters)).filterMap (·.stored?))
          w.interfaces w'.interfaces
  | [], _, _, _, h => by
    cases h
    exact ⟨rfl, by simp, .refl _⟩
  | probe :: probes, _, w, w', h => by
    obtain ⟨p, u, ps, hresolve, hrest, rfl⟩ := mapM_cons_eq_ok.mp h
    obtain ⟨rfl, hgenuine, hprobe⟩ := genuine_resolveProbe hresolve
    obtain ⟨rfl, hgenuines, hprobes⟩ := genuine_mapM_resolveProbe hrest
    refine ⟨rfl, List.forall_mem_cons.mpr ⟨hgenuine, hgenuines⟩, ?_⟩
    have hinserts := hprobe.trans hprobes
    rw [List.filter_cons]
    split at hinserts
    · rename_i hyes
      rwa [if_pos hyes, List.flatMap_cons, List.filterMap_append]
    · rename_i hnot
      rwa [if_neg hnot]

/-- The resolved probes are those of the task, in order, and the filters of its armed probes are new to the
    map and are what is added to it. -/
theorem genuine_resolveProbes {ps : List ResolvedProbe} (h : (resolveProbes dev task).run w = .ok ps w') :
    ps.map (·.probe) = task.task.probeConfigs ∧ (∀ p ∈ ps, p.Genuine) ∧
      Inserts (task.task.armedFilters.filterMap (·.stored?)) w.interfaces w'.interfaces :=
  genuine_mapM_resolveProbe (onError_eq_ok.mp h)

theorem WellFiltered.armedFilters_eq {task : Task} (h : WellFiltered task) : task.armedFilters = task.binderFilters := by
  rw [Task.armedFilters, Task.binderFilters]
  congr 1
  refine List.filter_congr fun probe hprobe => ?_
  cases hbinder : probe.isBinder with
  | false => simp [ProbeConfig.isArmed, hbinder]
  | true => simp [ProbeConfig.isArmed, hbinder, h.className probe hprobe hbinder]

theorem inserts_resolveProbes {ps : List ResolvedProbe} (hfiltered : WellFiltered task.task)
    (h : (resolveProbes dev task).run w = .ok ps w') :
    Inserts (task.task.binderFilters.filterMap (·.stored?)) w.interfaces w'.interfaces := by
  rw [← hfiltered.armedFilters_eq]
  exact (genuine_resolveProbes h).2.2

theorem unaffected_of_empty (hfiltered : WellFiltered task.task) (hempty : w.interfaces = .empty) :
    Unaffected dev task w := by
  refine ⟨fun h => ?_, fun probes w' hrun k v => ?_⟩
  · rw [← hempty] at h
    exact h
  · rw [(inserts_resolveProbes hfiltered hrun).lookup, hempty, BoundedMap.lookup_empty]
    simp

/-- A task that would be accepted on an empty map is affected by whatever else is there. -/
theorem empty_of_unaffected (hfiltered : WellFiltered task.task) (h : Unaffected dev task w)
    (haccepted : isOk ((resolveProbes dev task).run { w with interfaces := .empty }) = true) :
    w.interfaces = .empty := by
  have hok := h.1 haccepted
  cases hrun : (resolveProbes dev task).run w with
  | error e w' =>
    rw [hrun] at hok
    cases hok
  | ok probes w' =>
    have hinserts := inserts_resolveProbes hfiltered hrun
    rw [BoundedMap.eq_empty_iff, List.eq_nil_iff_forall_not_mem]
    intro k hk
    obtain ⟨v, hv⟩ := Option.isSome_iff_exists.mp (BoundedMap.lookup_isSome.mpr hk)
    have hentry := (h.2 probes w' hrun k v).mp ((hinserts.lookup k v).mpr (.inl hv))
    exact hinserts.fresh (k, v) hentry hk

end NewTask

/-- After runs that each clear the map, no new task is affected by what they left; and a new task that would be
    accepted on an empty map is unaffected exactly when the map is empty. -/
theorem unaffected_of_clears (history : List EarlierRun) (dev : Device) (task : ResolvedTask) (w : World)
    (hfiltered : WellFiltered task.task) (hstart : w.interfaces = left history) :
    ((∀ run ∈ history, run.Clears) → Unaffected dev task w) ∧
      (isOk ((resolveProbes dev task).run { w with interfaces := .empty }) = true →
        (Unaffected dev task w ↔ left history = .empty)) := by
  refine ⟨fun hclears => unaffected_of_empty hfiltered (hstart.trans (left_eq_empty hclears)), fun haccepted => ?_⟩
  rw [← hstart]
  exact ⟨fun h => empty_of_unaffected hfiltered h haccepted, unaffected_of_empty hfiltered⟩

/-! ### Two tasks for the same interface -/

def taskOfA : ResolvedTask where
  task := { probeConfigs := [binderProbe "a" [1]], durationSeconds := some 1 }
  durationSeconds := 1
  processName := "system_server"
  pid := 100
  uid := 0
  bpfMapPaths := []

theorem wellFiltered_taskOfA : WellFiltered taskOfA.task := by
  have hfilters : taskOfA.task.binderFilters = [⟨some "a", [1]⟩] := by decide +kernel
  refine ⟨by decide +kernel, ?_, ?_, ?_⟩
  · rw [hfilters]
    intro filter hfilter
    obtain rfl := List.mem_singleton.mp hfilter
    exact ⟨"a", rfl, plainName_a⟩
  · rw [hfilters]
    exact List.nodup_singleton _
  · rw [hfilters]
    intro filter hfilter
    obtain rfl := List.mem_singleton.mp hfilter
    refine ⟨List.cons_ne_nil _ _, by simp, fun id hid => ?_⟩
    obtain rfl := List.mem_singleton.mp hid
    decide

theorem unaffected_of_ended :
    Unaffected (binderDevice "a" [1]) taskOfA { interfaces := left [⟨binderDevice "a" [1], none⟩] } := by
  have hnames : configuredNames (binderDevice "a" [1]) = ["a"] := by decide +kernel
  have hclears : ∀ run ∈ [(⟨binderDevice "a" [1], none⟩ : EarlierRun)], run.Clears := by
    intro run hrun
    obtain rfl := List.mem_singleton.mp hrun
    intro name hname _
    rw [hnames] at hname
    obtain rfl := List.mem_singleton.mp hname
    exact cleanName_of_short plainName_a.nulFree (Nat.lt_succ_of_le plainName_a.short)
  exact (unaffected_of_clears [⟨binderDevice "a" [1], none⟩] (binderDevice "a" [1]) taskOfA
    { interfaces := left [⟨binderDevice "a" [1], none⟩] } wellFiltered_taskOfA rfl).1 hclears

/-- A first run that is killed once it has stored its filter makes the second fail, and so does one that ends
    and leaves a name behind that is not clean. -/
theorem not_unaffected_of_killed :
    WellFiltered taskOfA.task ∧
      (isOk ((resolveProbes (binderDevice "a" [1]) taskOfA).run { interfaces := .empty }) = true ∧
        isOk ((resolveProbes (binderDevice "a" [1]) taskOfA).run
          { interfaces := left [⟨binderDevice "a" [1], some 1⟩] }) = false) ∧
      ¬Unaffected (binderDevice "a" [1]) taskOfA { interfaces := left [⟨binderDevice longName [1], none⟩] } := by
  have haccepted : isOk ((resolveProbes (binderDevice "a" [1]) taskOfA).run { interfaces := .empty }) = true := by
    decide +kernel
  refine ⟨wellFiltered_taskOfA, ⟨haccepted, by decide +kernel⟩, fun h => ?_⟩
  have hlength : (left [⟨binderDevice longName [1], none⟩]).keys.length = 1 := by decide +kernel
  rw [show left [⟨binderDevice longName [1], none⟩] = .empty from
    empty_of_unaffected (w := { interfaces := left [⟨binderDevice longName [1], none⟩] }) wellFiltered_taskOfA h
      haccepted] at hlength
  cases hlength

end UprobeStats
