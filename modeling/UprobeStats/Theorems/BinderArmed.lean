import UprobeStats.Theorems.BinderRuns

/-! Which resolved Binder probes are armed. Only the branch of the offsets API writes filters, so a Binder
    probe that `oatdump` resolves counts on the filters of the others. -/

namespace UprobeStats
open Rust Effect Text

/-- The map holds the filters of the Binder probes, each of which has some, and nothing else. -/
structure ArmsAll (probes : List ResolvedProbe) (m : InterfacesMap) : Prop where
  armed : ∀ p ∈ probes, contains p.bpfProgramPath binderBpfProgramName = true →
    p.probe.binderTransactionFilters ≠ [] ∧ ∀ filter ∈ p.probe.binderTransactionFilters,
      ∃ entry, filter.stored? = some entry ∧ m.lookup entry.1 = some entry.2
  only : ∀ k v, m.lookup k = some v → ∃ p ∈ probes, contains p.bpfProgramPath binderBpfProgramName = true ∧
    ∃ filter ∈ p.probe.binderTransactionFilters, filter.stored? = some (k, v)

/-- A Binder probe without a class name has filters, and what they store is stored for Binder probes that have
    one. -/
def Task.Covered (task : Task) : Prop :=
  ∀ probe ∈ task.probeConfigs, probe.isBinder = true → probe.fullyQualifiedClassName = none →
    probe.binderTransactionFilters ≠ [] ∧ ∀ filter ∈ probe.binderTransactionFilters,
      filter.stored? ∈ task.armedFilters.map (·.stored?)

section Armed
variable {dev : Device} {task : ResolvedTask} {ps : List ResolvedProbe} {w w' : World}

theorem mem_armedFilters {task : Task} {filter : BinderTransactionFilter} : filter ∈ task.armedFilters ↔
    ∃ probe ∈ task.probeConfigs, probe.isArmed = true ∧ filter ∈ probe.binderTransactionFilters := by
  simp only [Task.armedFilters, List.mem_flatMap, List.mem_filter, and_assoc]

theorem ProbeConfig.isArmed_iff {probe : ProbeConfig} :
    probe.isArmed = true ↔ probe.isBinder = true ∧ probe.fullyQualifiedClassName ≠ none := by
  rw [ProbeConfig.isArmed, Bool.and_eq_true, Option.isSome_iff_ne_none]

/-- The entries after probes were resolved on an empty map. -/
theorem lookup_resolveProbes (hempty : w.interfaces = .empty) (h : (resolveProbes dev task).run w = .ok ps w')
    {k : BinderInterfaceBpfMapKey} {v : BinderCodesBpfMapValue} :
    w'.interfaces.lookup k = some v ↔ ∃ filter ∈ task.task.armedFilters, filter.stored? = some (k, v) := by
  obtain ⟨-, -, hinserts⟩ := genuine_resolveProbes h
  rw [hinserts.lookup, hempty, BoundedMap.lookup_empty, List.mem_filterMap]
  simp

theorem armedFilters_stored (h : (resolveProbes dev task).run w = .ok ps w') {filter : BinderTransactionFilter}
    (hfilter : filter ∈ task.task.armedFilters) : filter.stored?.isSome := by
  obtain ⟨hprobes, hgenuine, -⟩ := genuine_resolveProbes h
  obtain ⟨probe, hprobe, harmed, hfilter⟩ := mem_armedFilters.mp hfilter
  rw [← hprobes] at hprobe
  obtain ⟨p, hp, rfl⟩ := List.mem_map.mp hprobe
  exact ((hgenuine p hp).stored harmed).2 filter hfilter

/-- A filter is in the map exactly when what it stores is stored for an armed probe. -/
theorem lookup_stored_iff (hempty : w.interfaces = .empty) (h : (resolveProbes dev task).run w = .ok ps w')
    {filter : BinderTransactionFilter} :
    (∃ entry, filter.stored? = some entry ∧ w'.interfaces.lookup entry.1 = some entry.2) ↔
      filter.stored? ∈ task.task.armedFilters.map (·.stored?) := by
  rw [List.mem_map]
  constructor
  · rintro ⟨entry, hentry, hlookup⟩
    obtain ⟨armed, harmed, hstored⟩ := (lookup_resolveProbes hempty h).mp hlookup
    exact ⟨armed, harmed, hstored.trans hentry.symm⟩
  · rintro ⟨armed, harmed, hstored⟩
    obtain ⟨entry, hentry⟩ := Option.isSome_iff_exists.mp (armedFilters_stored h harmed)
    exact ⟨entry, hstored ▸ hentry, (lookup_resolveProbes hempty h).mpr ⟨armed, harmed, hentry⟩⟩

/-- After probes were resolved on an empty map all Binder probes among them are armed, by the map and nothing
    else in it, exactly when those without a class name are covered by those that have one. -/
theorem armsAll_iff_covered (hempty : w.interfaces = .empty) (h : (resolveProbes dev task).run w = .ok ps w') :
    ArmsAll ps w'.interfaces ↔ task.task.Covered := by
  obtain ⟨hprobes, hgenuine, -⟩ := genuine_resolveProbes h
  have hmem {p : ResolvedProbe} (hp : p ∈ ps) : p.probe ∈ task.task.probeConfigs := hprobes ▸ List.mem_map_of_mem hp
  constructor
  · intro harms probe hprobe hbinder _
    rw [← hprobes] at hprobe
    obtain ⟨p, hp, rfl⟩ := List.mem_map.mp hprobe
    obtain ⟨hne, hfilters⟩ := harms.armed p hp ((hgenuine p hp).binder_eq.trans hbinder)
    exact ⟨hne, fun filter hfilter => (lookup_stored_iff hempty h).mp (hfilters filter hfilter)⟩
  · refine fun hcovered => ⟨fun p hp hpath => ?_, fun k v hlookup => ?_⟩
    · rw [(hgenuine p hp).binder_eq] at hpath
      by_cases hclass : p.probe.fullyQualifiedClassName = none
      · obtain ⟨hne, hfilters⟩ := hcovered p.probe (hmem hp) hpath hclass
        exact ⟨hne, fun filter hfilter => (lookup_stored_iff hempty h).mpr (hfilters filter hfilter)⟩
      · have harmed := ProbeConfig.isArmed_iff.mpr ⟨hpath, hclass⟩
        refine ⟨((hgenuine p hp).stored harmed).1, fun filter hfilter => (lookup_stored_iff hempty h).mpr ?_⟩
        exact List.mem_map_of_mem (mem_armedFilters.mpr ⟨p.probe, hmem hp, harmed, hfilter⟩)
    · obtain ⟨filter, hfilter, hstored⟩ := (lookup_resolveProbes hempty h).mp hlookup
      obtain ⟨probe, hprobe, harmed, hfilter⟩ := mem_armedFilters.mp hfilter
      rw [← hprobes] at hprobe
      obtain ⟨p, hp, rfl⟩ := List.mem_map.mp hprobe
      have hbinder := (ProbeConfig.isArmed_iff.mp harmed).1
      exact ⟨p, hp, (hgenuine p hp).binder_eq.trans hbinder, filter, hfilter, hstored⟩

end Armed

/-! ### A probe without a class name -/

/-- A device on which `oatdump` finds the method `m` in every file. -/
def oatdumpDevice : Device :=
  { quietDevice {} with
    oatdump := fun _ _ => .ok ⟨true, utf8 "line", []⟩
    parseJson := fun _ => some ⟨some "m", some "0x10"⟩ }

def oatdumpProbe (interfaceName : String) (methodIds : List Int64) : ProbeConfig :=
  { binderProbe interfaceName methodIds with
    fullyQualifiedClassName := none
    methodSignature := some "m"
    filePaths := ["services.odex"] }

/-- Two probes of one interface, the second of which is resolved by `oatdump`. -/
theorem armsAll_of_shared : ∃ ps w',
    (resolveProbes oatdumpDevice (taskOf [binderProbe "a" [1], oatdumpProbe "a" [1]])).run { interfaces := .empty } =
      .ok ps w' ∧ ArmsAll ps w'.interfaces := by
  have hok : isOk ((resolveProbes oatdumpDevice (taskOf [binderProbe "a" [1], oatdumpProbe "a" [1]])).run
      { interfaces := .empty }) = true := by decide +kernel
  obtain ⟨ps, w', hrun⟩ := exists_of_isOk hok
  refine ⟨ps, w', hrun, (armsAll_iff_covered rfl hrun).mpr fun probe hprobe _ hclass => ?_⟩
  simp only [taskOf, List.mem_cons, List.not_mem_nil, or_false] at hprobe
  rcases hprobe with rfl | rfl
  · cases hclass
  · refine ⟨List.cons_ne_nil _ _, fun filter hfilter => ?_⟩
    obtain rfl := List.mem_singleton.mp hfilter
    have hmem : (⟨some "a", [1]⟩ : BinderTransactionFilter) ∈
        (taskOf [binderProbe "a" [1], oatdumpProbe "a" [1]]).task.armedFilters := by decide +kernel
    exact List.mem_map_of_mem hmem

/-- A Binder probe that `oatdump` resolves is returned with its filter on an empty map. -/
theorem not_armsAll_of_oatdump : PlainName "a" ∧ ∃ ps w',
    (resolveProbes oatdumpDevice (taskOf [oatdumpProbe "a" [1]])).run { interfaces := .empty } = .ok ps w' ∧
      (∃ p ∈ ps, contains p.bpfProgramPath binderBpfProgramName = true) ∧ ¬ArmsAll ps w'.interfaces := by
  have hok : isOk ((resolveProbes oatdumpDevice (taskOf [oatdumpProbe "a" [1]])).run
      { interfaces := .empty }) = true := by decide +kernel
  have hbinder : (oatdumpProbe "a" [1]).isBinder = true := by decide +kernel
  obtain ⟨ps, w', hrun⟩ := exists_of_isOk hok
  obtain ⟨hprobes, hgenuine, -⟩ := genuine_resolveProbes hrun
  obtain ⟨p, hp, hprobe⟩ := List.mem_map.mp
    (show oatdumpProbe "a" [1] ∈ ps.map (·.probe) from hprobes ▸ List.mem_singleton_self _)
  have hpath : contains p.bpfProgramPath binderBpfProgramName = true := by
    rw [(hgenuine p hp).binder_eq, hprobe, hbinder]
  have hempty : (taskOf [oatdumpProbe "a" [1]]).task.armedFilters = [] := by decide +kernel
  refine ⟨plainName_a, ps, w', hrun, ⟨p, hp, hpath⟩, fun harms => ?_⟩
  obtain ⟨hne, hfilters⟩ := (armsAll_iff_covered rfl hrun).mp harms (oatdumpProbe "a" [1]) (List.mem_singleton_self _)
    hbinder rfl
  have hmem := hfilters ⟨some "a", [1]⟩ (List.mem_singleton_self _)
  rw [hempty] at hmem
  cases hmem

end UprobeStats
