import UprobeStats.Theorems.BinderMap

/-! The end of a run and the filter map. However `main_impl` stops, the drop of the accessor ends, and it
    leaves the map empty exactly when every interface name that was stored is clean. -/

namespace UprobeStats
open Rust Effect Text

/-! ### The run without its destructors -/

def undropped (dev : Device) : Prog PUnit := do
  let config ← readAllowedConfig dev
  let task ← resolveSingleTask dev config
  let probes ← task.task.probeConfigs.mapM (resolveProbe dev task)
  runTask dev task probes

/-- The state in which a run stops, before the accessor is dropped. -/
def stopped (dev : Device) (w : World) : World := after ((undropped dev).run w)

section Run
variable {dev : Device} {w w' : World}

theorem accessor_dropAccessor : (dropAccessor dev w).accessor = false := by
  unfold dropAccessor
  split
  · rfl
  · rename_i h
    simpa using h

theorem dropAccessor_of_not (h : w.accessor = false) : dropAccessor dev w = w := by simp [dropAccessor, h]

/-- A run ends with one drop of what it stopped with. -/
theorem after_mainImpl (h : w.accessor = false) : after ((mainImpl dev).run w) = dropAccessor dev (stopped dev w) := by
  rw [stopped, mainImpl, undropped, EStateM.run_bind, EStateM.run_bind]
  cases hread : (readAllowedConfig dev).run w with
  | error e v =>
    obtain rfl := (within_readAllowedConfig dev).of_error hread
    exact (dropAccessor_of_not h).symm
  | ok config v =>
    obtain rfl := (within_readAllowedConfig dev).of_ok hread
    dsimp only
    rw [EStateM.run_bind, EStateM.run_bind]
    cases hresolve : (resolveSingleTask dev config).run w with
    | error e u =>
      obtain ⟨rs, rfl, -⟩ := (inquiry_resolveSingleTask dev config).of_error hresolve
      refine (dropAccessor_of_not ?_).symm
      exact h
    | ok task u =>
      dsimp only
      rw [run_onExit, EStateM.run_bind, EStateM.run_bind, resolveProbes, run_onError]
      cases hprobes : (task.task.probeConfigs.mapM (resolveProbe dev task)).run u with
      | error e t => exact dropAccessor_of_not accessor_dropAccessor
      | ok probes t =>
        dsimp only
        cases (runTask dev task probes).run t <;> rfl

end Run

/-! ### What is stored -/

def filterNames (task : Task) : List String :=
  task.probeConfigs.flatMap fun probe => probe.binderTransactionFilters.filterMap (·.interfaceName)

def Extended (names : List String) (w w' : World) : Prop :=
  ∀ k ∈ w'.interfaces.keys, k ∈ w.interfaces.keys ∨ ∃ name ∈ names, k = toCKey name

def Stored (names : List String) (w w' : World) : Prop := Extended names w w' ∧ w'.accessor = w.accessor

/-- Entries are stored under names of the list, and only in a map that is open at the end. -/
def Armed (names : List String) (w w' : World) : Prop :=
  Extended names w w' ∧ (w'.accessor = false → w.accessor = false ∧ w'.interfaces = w.interfaces)

section Stored
variable {dev : Device} {names : List String} {u v w w' : World}

theorem Extended.refl (w : World) : Extended names w w := fun _ hk => .inl hk

theorem Extended.trans (huv : Extended names u v) (hvw : Extended names v w) : Extended names u w :=
  fun k hk => (hvw k hk).elim (huv k) .inr

instance : Std.Refl (Stored names) := ⟨fun w => ⟨.refl w, rfl⟩⟩

instance : IsTrans World (Stored names) := ⟨fun _ _ _ huv hvw => ⟨huv.1.trans hvw.1, hvw.2.trans huv.2⟩⟩

instance : Std.Refl (Armed names) := ⟨fun w => ⟨.refl w, fun h => ⟨h, rfl⟩⟩⟩

instance : IsTrans World (Armed names) := by
  refine ⟨fun u v w huv hvw => ⟨huv.1.trans hvw.1, fun hw => ?_⟩⟩
  obtain ⟨hv, hvw⟩ := hvw.2 hw
  obtain ⟨hu, huv⟩ := huv.2 hv
  exact ⟨hu, hvw.trans huv⟩

theorem OnlyAsked.armed {φ : Request → Prop} (h : OnlyAsked φ w w') : Armed names w w' := by
  obtain ⟨rs, rfl, -⟩ := h
  exact ⟨fun k hk => .inl hk, fun hw => ⟨hw, rfl⟩⟩

theorem Stored.armed (h : Stored names w w') (hopen : w.accessor = true) : Armed names w w' :=
  ⟨h.1, fun hw => by rw [h.2, hopen] at hw; cases hw⟩

theorem stored_put {name : String} (hname : name ∈ names) (value : List UInt64) (flags : UpdateFlag) :
    Within (Stored names) (put name value flags) := by
  intro w
  cases hupdate : w.interfaces.update (toCKey name) (toCValue value) flags with
  | error e =>
    rw [put_of_error hupdate]
    exact ⟨fun k hk => .inl hk, rfl⟩
  | ok m =>
    rw [put_of_ok hupdate]
    refine ⟨fun k hk => ?_, rfl⟩
    rcases (BoundedMap.mem_keys_update hupdate).mp hk with rfl | hk
    · exact .inr ⟨name, hname, rfl⟩
    · exact .inl hk

theorem stored_writeFilter {filter : BinderTransactionFilter} (h : ∀ name, filter.interfaceName = some name → name ∈ names) :
    Within (Stored names) (writeFilter filter) := by
  refine (Within.lift _).bind_of_ok fun v name v' hname => ?_
  have hname := h name (okOr_eq_ok.mp (lift_eq_ok.mp hname).1)
  exact ((Within.lift _).bind fun _ => (Within.lift _).bind fun _ => stored_put hname _ _) v'

theorem ensureAccessor_ok {r : PUnit} (h : (ensureAccessor dev).run w = .ok r w') : w'.accessor = true := by
  unfold ensureAccessor at h
  rw [bind_get_eq_ok] at h
  split at h
  · rename_i hopen
    obtain ⟨-, rfl⟩ := pure_eq_ok.mp h
    exact hopen
  · obtain ⟨_, v, -, h⟩ := bind_eq_ok.mp h
    cases h
    rfl

theorem armed_ensureAccessor : Within (Armed names) (ensureAccessor dev) := by
  refine Within.get_bind fun w => ?_
  split
  · exact refl_of _ w
  · refine (Within.bind (R := Armed names) (within_any_ask.mono fun _ _ h => h.armed) fun _ => .modify fun v => ?_) w
    exact ⟨fun k hk => .inl hk, fun h => by cases h⟩

theorem armed_armBinder {p : ResolvedProbe}
    (h : ∀ filter ∈ p.probe.binderTransactionFilters, ∀ name, filter.interfaceName = some name → name ∈ names) :
    Within (Armed names) (armBinder dev p) := by
  unfold armBinder
  split
  · refine armed_ensureAccessor.bind_of_ok fun w _ v hrun => Stored.armed ?_ (ensureAccessor_ok hrun)
    exact ((Within.lift _).bind fun _ => .forM fun filter hfilter => stored_writeFilter (h filter hfilter)) v
  · exact .pure _

theorem armed_resolveProbe {task : ResolvedTask} {probe : ProbeConfig} (h : probe ∈ task.task.probeConfigs) :
    Within (Armed (filterNames task.task)) (resolveProbe dev task probe) := by
  refine (Within.lift _).bind fun bpfName => (Within.lift _).bind fun _ => ?_
  have hask {α : Type} {φ : Request → Prop} {x : Prog α} (hx : Within (OnlyAsked φ) x) :
      Within (Armed (filterNames task.task)) x := hx.mono fun _ _ h => h.armed
  cases probe.fullyQualifiedClassName with
  | none => exact hask (within_resolveByOatdump _ _)
  | some className =>
    refine (hask (inquiry_resolveByOffsetsApi _ _ _ _)).bind_of_ok fun v p v' hrun => ?_
    obtain ⟨rfl, -⟩ := resolveByOffsetsApi_ok hrun
    refine ((armed_armBinder fun filter hfilter name hname => ?_).bind fun _ => .pure _) v'
    exact List.mem_flatMap.mpr ⟨p.probe, h, List.mem_filterMap.mpr ⟨filter, hfilter, hname⟩⟩

end Stored

/-! ### The end of a run -/

/-- The interface names that a run may store: those of its first task. -/
def configuredNames (dev : Device) : List String :=
  (dev.config.toOption.bind (·.tasks.head?)).elim [] filterNames

section Cleanup
variable {dev : Device} {w : World}

theorem configuredNames_eq {config : UprobestatsConfig} {task : Task} (hconfig : dev.config = .ok config)
    (hhead : config.tasks.head? = some task) : configuredNames dev = filterNames task := by
  rw [configuredNames, hconfig]
  show (config.tasks.head?).elim [] filterNames = _
  rw [hhead]
  rfl

theorem armed_stopped (dev : Device) (w : World) : Armed (configuredNames dev) w (stopped dev w) := by
  have hundropped : Within (Armed (configuredNames dev)) (undropped dev) := by
    refine ((within_readAllowedConfig dev).mono fun v v' h => h ▸ refl_of _ v).bind_of_ok fun v config v' hread => ?_
    refine ((inquiry_resolveSingleTask dev config).mono fun _ _ h => h.armed).bind_of_ok (fun u task u' htask => ?_) v'
    have hnames := configuredNames_eq (readAllowedConfig_ok hread).1 (resolveSingleTask_ok htask)
    rw [hnames]
    refine (Within.bind (R := Armed (filterNames task.task)) (.mapM fun probe hprobe => armed_resolveProbe hprobe)
      fun probes => (within_runTask task probes).mono fun _ _ h => h.armed) u'
  exact hundropped w

/-- However a run from an empty map stops, its drop ends, and it leaves the map empty exactly when all the
    names that were stored are clean. -/
theorem interfaces_empty_iff (dev : Device) :
    let run := stopped dev { interfaces := .empty }
    (∀ w, (drain dev).run run ≠ .ok false w) ∧
      ((after ((mainImpl dev).run { interfaces := .empty })).interfaces = .empty ↔
        ∀ name ∈ configuredNames dev, toCKey name ∈ run.interfaces.keys → CleanName name) := by
  refine ⟨fun w => drain_terminates _ w, ?_⟩
  rw [after_mainImpl rfl]
  obtain ⟨hkeys, hclosed⟩ := armed_stopped dev { interfaces := .empty }
  cases hopen : (stopped dev { interfaces := .empty }).accessor with
  | false =>
    have hempty := (hclosed hopen).2
    rw [dropAccessor_of_not hopen, hempty]
    exact ⟨fun _ name _ hmem => (by cases hmem), fun _ => rfl⟩
  | true =>
    rw [dropAccessor_eq_empty_iff hopen]
    constructor
    · exact fun hclean name _ hmem => clean_toCKey_iff.mp (hclean _ hmem)
    · intro hclean k hmem
      rcases hkeys k hmem with hmem' | ⟨name, hname, rfl⟩
      · cases hmem'
      · exact clean_toCKey_iff.mpr (hclean name hname hmem)

end Cleanup

/-! ### A name that does not fit -/

def binderDevice (interfaceName : String) (methodIds : List Int64) : Device :=
  { quietDevice (oneTask [binderProbe interfaceName methodIds]) with buildType := .ok (some "userdebug") }

def longName : String := String.ofList (List.replicate 128 'a')

/-- A name of 128 bytes fills its key, and the run leaves it in the map. -/
theorem interfaces_ne_empty_of_longName :
    (after ((mainImpl (binderDevice longName [1])).run { interfaces := .empty })).interfaces ≠ .empty := by
  intro h
  have hlength : (after ((mainImpl (binderDevice longName [1])).run
      { interfaces := .empty })).interfaces.keys.length = 1 := by decide +kernel
  rw [h] at hlength
  cases hlength

end UprobeStats
