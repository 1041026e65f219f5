import UprobeStats.Main

/-! What the parts of a run ask of the device, and what they make of its answers. Up to the attaches of
    `main_impl` no probe of the config is attached, and `oatdump` is asked only for a probe that has no class
    name. -/

namespace UprobeStats
open Rust Effect

/-- A request made for a probe of the config: its attach, or an `oatdump` for it. -/
def Request.ofProbe : Request → Bool
  | .oatdump _ => true
  | .perfEventOpen (some _) _ _ _ _ => true
  | _ => false

/-- The requests are extended by ones with `φ`. -/
def Asked (φ : Request → Prop) (w w' : World) : Prop := ∃ rs, w'.requests = w.requests ++ rs ∧ ∀ r ∈ rs, φ r

/-- The requests are extended by ones with `φ`, and nothing else changes. -/
def OnlyAsked (φ : Request → Prop) (w w' : World) : Prop :=
  ∃ rs, w' = { w with requests := w.requests ++ rs } ∧ ∀ r ∈ rs, φ r

section Relations
variable {φ ψ : Request → Prop}

instance : Std.Refl (Asked φ) := ⟨fun w => ⟨[], by simp⟩⟩

instance : IsTrans World (Asked φ) := by
  refine ⟨fun u v w ⟨rs, hv, hrs⟩ ⟨rs', hw, hrs'⟩ => ⟨rs ++ rs', ?_, ?_⟩⟩
  · rw [hw, hv, List.append_assoc]
  · exact fun r hr => (List.mem_append.mp hr).elim (hrs r) (hrs' r)

instance : Std.Refl (OnlyAsked φ) := ⟨fun w => ⟨[], by simp⟩⟩

instance : IsTrans World (OnlyAsked φ) := by
  refine ⟨fun u v w ⟨rs, hv, hrs⟩ ⟨rs', hw, hrs'⟩ => ⟨rs ++ rs', ?_, ?_⟩⟩
  · rw [hw, hv, List.append_assoc]
  · exact fun r hr => (List.mem_append.mp hr).elim (hrs r) (hrs' r)

theorem OnlyAsked.asked {w w' : World} (h : OnlyAsked φ w w') : Asked φ w w' := by
  obtain ⟨rs, rfl, hrs⟩ := h
  exact ⟨rs, rfl, hrs⟩

theorem OnlyAsked.mono {w w' : World} (h : OnlyAsked φ w w') (hφ : ∀ r, φ r → ψ r) : OnlyAsked ψ w w' := by
  obtain ⟨rs, hw, hrs⟩ := h
  exact ⟨rs, hw, fun r hr => hφ r (hrs r hr)⟩

end Relations

/-- The program makes no request for a probe of the config. -/
abbrev Preliminary {α : Type} (x : Prog α) : Prop := Within (Asked (·.ofProbe = false)) x

/-- The program makes no request for a probe of the config, and changes nothing. -/
abbrev Inquiry {α : Type} (x : Prog α) : Prop := Within (OnlyAsked (·.ofProbe = false)) x

theorem Inquiry.preliminary {α : Type} {x : Prog α} (h : Inquiry x) : Preliminary x :=
  Within.mono h fun _ _ => OnlyAsked.asked

section Requests
variable {α : Type} {dev : Device}

theorem after_ask {r : Request} {answer : List Request → Except Error α} {w : World} :
    after ((ask r answer).run w) = { w with requests := w.requests ++ [r] } := by
  unfold ask
  simp only [EStateM.run_bind, EStateM.run_get, EStateM.run_set, run_lift]
  cases answer w.requests <;> rfl

theorem ask_eq_ok {r : Request} {answer : List Request → Except Error α} {w w' : World} {a : α} :
    (ask r answer).run w = .ok a w' ↔ answer w.requests = .ok a ∧ w' = { w with requests := w.requests ++ [r] } := by
  unfold ask
  simp only [EStateM.run_bind, EStateM.run_get, EStateM.run_set]
  exact lift_eq_ok

theorem run_ask_bind_of_ok {β : Type} {r : Request} {answer : List Request → Except Error α} {w : World} {a : α}
    {k : α → Prog β} (h : answer w.requests = .ok a) :
    (ask r answer >>= k).run w = (k a).run { w with requests := w.requests ++ [r] } := by
  rw [EStateM.run_bind, ask_eq_ok.mpr ⟨h, rfl⟩]

theorem run_attempt_ask_bind {β : Type} {r : Request} {answer : List Request → Except Error α} {w : World}
    {k : Except Error α → Prog β} : (attempt (ask r answer) >>= k).run w =
      (k (answer w.requests)).run { w with requests := w.requests ++ [r] } := by
  rw [EStateM.run_bind, run_attempt]
  unfold ask
  simp only [EStateM.run_bind, EStateM.run_get, EStateM.run_set, run_lift]
  cases answer w.requests <;> rfl

theorem run_ask_get {β : Type} {r : Request} {a : α} {w : World} {k : World → Prog β} :
    ((ask r fun _ => .ok a) >>= fun _ => get >>= k).run w =
      (k { w with requests := w.requests ++ [r] }).run { w with requests := w.requests ++ [r] } := rfl

theorem within_ask {φ : Request → Prop} {r : Request} {answer : List Request → Except Error α} (h : φ r) :
    Within (OnlyAsked φ) (ask r answer) := fun w => ⟨[r], by rw [after_ask], by simpa using h⟩

theorem within_any_ask {r : Request} {answer : List Request → Except Error α} :
    Within (OnlyAsked fun _ => True) (ask r answer) := within_ask trivial

theorem inquiry_ask {r : Request} {answer : List Request → Except Error α} (h : r.ofProbe = false) :
    Inquiry (ask r answer) := within_ask h

/-! ### The config -/

theorem within_readAllowedConfig (dev : Device) : Within Eq (readAllowedConfig dev) := by
  refine (Within.lift _).bind fun _ => (Within.lift _).bind fun _ => (Within.lift _).bind fun _ => ?_
  exact (Within.lift _).bind fun _ => (Within.lift _).bind fun _ => (Within.lift _).bind fun _ => .pure _

theorem readAllowedConfig_ok {config : UprobestatsConfig} {w w' : World}
    (h : (readAllowedConfig dev).run w = .ok config w') :
    dev.config = .ok config ∧ isAllowed config dev.isUserBuild true = .ok true := by
  obtain ⟨_, -, h⟩ := bind_lift_eq_ok.mp h
  obtain ⟨_, -, h⟩ := bind_lift_eq_ok.mp h
  obtain ⟨_, -, h⟩ := bind_lift_eq_ok.mp h
  obtain ⟨_, hconfig, h⟩ := bind_lift_eq_ok.mp h
  obtain ⟨allowed, hallowed, h⟩ := bind_lift_eq_ok.mp h
  obtain ⟨_, hensure, h⟩ := bind_lift_eq_ok.mp h
  cases h
  obtain rfl := ensure_eq_ok.mp hensure
  exact ⟨hconfig, hallowed⟩

/-! ### The target process -/

theorem inquiry_getPid (processName : String) : Inquiry (getPid dev processName) :=
  Within.get.bind fun _ => .pure _

theorem inquiry_getOffsets (target : TargetProcess) (method : MethodDescriptor) :
    Inquiry (getOffsets dev target method) := inquiry_ask rfl

theorem inquiry_getSystemServerOffsets (descriptor : Except Error MethodDescriptor) (method : String) :
    Inquiry (getSystemServerOffsets dev descriptor method) := by
  refine (Within.lift _).bind fun target => (Within.lift _).bind fun descriptor => ?_
  refine (inquiry_getOffsets _ _).bind fun offsets => ?_
  cases offsets with
  | error e => exact .throw _
  | ok offsets => exact .lift _

theorem inquiry_waitLoop (processName : Option String) (duration : Nat) : ∀ rounds : List (Round ProcessChange),
    Inquiry (waitLoop processName duration rounds)
  | [] => .throw _
  | round :: rounds => by
    unfold waitLoop
    cases remainingMillis duration round.elapsed with
    | none => exact .throw _
    | some remaining =>
      refine (Within.lift _).bind fun _ => (inquiry_ask rfl).bind fun result => (Within.lift _).bind fun resolved => ?_
      cases resolved with
      | some resolved => exact .pure _
      | none => exact inquiry_waitLoop processName duration rounds

theorem inquiry_getAppStartOffsets : Inquiry (getAppStartOffsets dev) := by
  refine (inquiry_getSystemServerOffsets _ _).attempt.bind fun makeActive => ?_
  cases makeActive with
  | ok offsets => exact .pure _
  | error e => exact (inquiry_getSystemServerOffsets _ _).bind fun offsets => .pure _

theorem inquiry_waitForAppStart (processName : Option String) (duration : Nat) :
    Inquiry (waitForAppStart dev processName duration) := by
  unfold waitForAppStart
  split
  · exact (inquiry_ask rfl).bind fun _ => Within.get.bind fun _ => .lift _
  · refine (inquiry_getPid _).bind fun _ => (Within.lift _).bind fun _ => ?_
    refine inquiry_getAppStartOffsets.bind fun found => (Within.lift _).bind fun _ => ?_
    exact (inquiry_ask rfl).bind fun _ => Within.get.bind fun _ => inquiry_waitLoop processName duration _

theorem inquiry_resolveProcess (targetProcessName : Option String) (selection : TargetProcessSelection)
    (duration : Nat) : Inquiry (resolveProcess dev targetProcessName selection duration) := by
  have hrunning : Inquiry (do
      let processName ← lift (okOr targetProcessName
        s!"Process name is required for selection type {selection.name}")
      let pid ← getPid dev processName
      let pid ← lift (okOr pid s!"Can't find pid for {processName}")
      pure (⟨pid, 0, processName⟩ : ResolvedProcess)) :=
    (Within.lift _).bind fun _ => (inquiry_getPid _).bind fun _ => (Within.lift _).bind fun _ => .pure _
  cases selection with
  | unknown => exact hrunning
  | specificProcessName => exact hrunning
  | anyAppProcessOnStart => exact inquiry_waitForAppStart _ _
  | specificAppProcessOnStart => exact inquiry_waitForAppStart _ _

theorem inquiry_resolveSingleTask (dev : Device) (config : UprobestatsConfig) : Inquiry (resolveSingleTask dev config) := by
  refine (Within.lift _).bind fun task => (Within.forM fun _ _ => .lift _).bind fun _ => ?_
  refine (Within.lift _).bind fun _ => (Within.lift _).bind fun _ => (Within.lift _).bind fun _ => ?_
  exact (inquiry_resolveProcess _ _ _).bind fun _ => .pure _

theorem resolveSingleTask_ok {config : UprobestatsConfig} {task : ResolvedTask} {w w' : World}
    (h : (resolveSingleTask dev config).run w = .ok task w') :
    config.tasks.head? = some task.task := by
  obtain ⟨t, ht, h⟩ := bind_lift_eq_ok.mp h
  obtain ⟨_, _, -, h⟩ := bind_eq_ok.mp h
  obtain ⟨_, -, h⟩ := bind_lift_eq_ok.mp h
  obtain ⟨_, -, h⟩ := bind_lift_eq_ok.mp h
  obtain ⟨_, -, h⟩ := bind_lift_eq_ok.mp h
  obtain ⟨_, _, -, h⟩ := bind_eq_ok.mp h
  cases h
  exact okOr_eq_ok.mp ht

/-! ### The Binder map -/

theorem preliminary_setInterfaces (m : InterfacesMap) : Preliminary (setInterfaces m) := .modify fun _ => ⟨[], by simp⟩

section Map
variable {w : World} {key : String} {value : List UInt64} {flags : UpdateFlag} {m : InterfacesMap} {e : Errno}

theorem put_of_ok (h : w.interfaces.update (toCKey key) (toCValue value) flags = .ok m) :
    (put key value flags).run w = .ok ⟨⟩ { w with
      interfaces := m, requests := w.requests ++ [.putInterface key], contents := w.contents ++ [m] } := by
  rw [put, run_ask_get]
  dsimp only
  rw [h]
  rfl

theorem put_of_error (h : w.interfaces.update (toCKey key) (toCValue value) flags = .error e) :
    (put key value flags).run w = .error (.message s!"Failed to write to BPF map. Error code: {resOf e}")
      { w with requests := w.requests ++ [.putInterface key] } := by
  rw [put, run_ask_get]
  dsimp only
  rw [h]
  rfl

theorem delete_of_ok (h : w.interfaces.delete (toCKey key) = .ok m) :
    (delete key).run w = .ok true { w with
      interfaces := m, requests := w.requests ++ [.deleteInterface key], contents := w.contents ++ [m] } := by
  rw [delete, run_ask_get]
  dsimp only
  rw [h]
  rfl

theorem delete_of_error (h : w.interfaces.delete (toCKey key) = .error e) :
    (delete key).run w = .ok false { w with requests := w.requests ++ [.deleteInterface key] } := by
  rw [delete, run_ask_get]
  dsimp only
  rw [h]
  rfl

end Map

theorem preliminary_put (key : String) (value : List UInt64) (flags : UpdateFlag) :
    Preliminary (put key value flags) := by
  refine (inquiry_ask rfl).preliminary.bind fun _ => Within.get.bind fun w => ?_
  cases w.interfaces.update (toCKey key) (toCValue value) flags with
  | ok m => exact preliminary_setInterfaces m
  | error e => exact .throw _

theorem preliminary_writeFilter (filter : BinderTransactionFilter) : Preliminary (writeFilter filter) :=
  (Within.lift _).bind fun _ => (Within.lift _).bind fun _ => (Within.lift _).bind fun _ => preliminary_put _ _ _

theorem preliminary_armBinder (probe : ResolvedProbe) : Preliminary (armBinder dev probe) := by
  unfold armBinder
  split
  · have haccessor : Preliminary (ensureAccessor dev) := by
      refine Within.get.bind fun w => ?_
      split
      · exact .pure _
      · exact (inquiry_ask rfl).preliminary.bind fun _ => .modify fun _ => ⟨[], by simp⟩
    exact haccessor.bind fun _ => (Within.lift _).bind fun _ => .forM fun filter _ => preliminary_writeFilter filter
  · exact .pure _

theorem preliminary_delete (key : String) : Preliminary (delete key) := by
  refine (inquiry_ask rfl).preliminary.bind fun _ => Within.get.bind fun w => ?_
  cases w.interfaces.delete (toCKey key) with
  | ok m => exact (preliminary_setInterfaces m).bind fun _ => .pure _
  | error e => exact .pure _

theorem preliminary_drainLoop : ∀ fuel : Nat, Preliminary (drainLoop dev fuel)
  | 0 => .pure _
  | fuel + 1 => by
    refine ((inquiry_ask rfl).preliminary.bind fun _ => Within.get.bind fun _ => .pure _).bind fun key => ?_
    cases key with
    | none => exact .pure _
    | some key =>
      refine (preliminary_delete key).bind fun deleted => ?_
      split
      · exact preliminary_drainLoop fuel
      · exact .throw _

theorem preliminary_drain : Preliminary (drain dev) := Within.get.bind fun _ => preliminary_drainLoop _

theorem preliminary_dropAccessor (dev : Device) (w : World) :
    ∃ rs, (dropAccessor dev w).requests = w.requests ++ rs ∧ ∀ r ∈ rs, r.ofProbe = false := by
  unfold dropAccessor
  split
  · exact preliminary_drain w
  · exact ⟨[], by simp⟩

/-! ### The offsets API -/

/-- The device was asked for a method of a class, and answered with a file and an offset. -/
def Answered (dev : Device) (requests : List Request) (className methodName filename : String) (offset : Int32) :
    Prop :=
  ∃ asked target parameters offsets,
    asked ++ [.getExecutableMethodFileOffsets target ⟨className, methodName, parameters⟩] <+: requests ∧
      dev.offsets asked target ⟨className, methodName, parameters⟩ = .ok (some offsets) ∧
      filename = offsets.containerPath ∧ offset.toInt = offsets.methodOffset.toNat

theorem Answered.mono {requests requests' : List Request} {className methodName filename : String}
    {offset : Int32} (h : Answered dev requests className methodName filename offset) (hle : requests <+: requests') :
    Answered dev requests' className methodName filename offset := by
  obtain ⟨asked, target, parameters, offsets, hasked, h⟩ := h
  exact ⟨asked, target, parameters, offsets, hasked.trans hle, h⟩

section Offsets
variable {target : TargetProcess} {method : MethodDescriptor} {w w' : World}
  {offsets : Option ExecutableMethodFileOffsets}

theorem getOffsets_ok (h : (getOffsets dev target method).run w = .ok (.ok offsets) w') :
    ∃ asked, asked ++ [.getExecutableMethodFileOffsets target method] <+: w'.requests ∧
      dev.offsets asked target method = .ok offsets := by
  obtain ⟨hanswer, rfl⟩ := ask_eq_ok.mp h
  exact ⟨w.requests, List.prefix_refl _, mapError_eq_ok.mp (Except.ok.inj hanswer)⟩

theorem retryOffsets_ok : ∀ {retries : Nat} {w w' : World},
    (retryOffsets dev target method retries).run w = .ok offsets w' →
      ∃ asked, asked ++ [.getExecutableMethodFileOffsets target method] <+: w'.requests ∧
        dev.offsets asked target method = .ok offsets
  | 0, w, w', h => by
    obtain ⟨answer, v, hget, h⟩ := bind_eq_ok.mp h
    cases answer with
    | error status => cases h
    | ok offsets' =>
      cases h
      exact getOffsets_ok hget
  | retries + 1, w, w', h => by
    obtain ⟨answer, v, hget, h⟩ := bind_eq_ok.mp h
    cases answer with
    | error status =>
      dsimp only at h
      split at h
      · cases h
      · split at h
        · cases h
        · exact retryOffsets_ok h
    | ok offsets' =>
      cases h
      exact getOffsets_ok hget

theorem getExecutableMethodFileOffsetsWithRetry_ok
    (h : (getExecutableMethodFileOffsetsWithRetry dev target method).run w = .ok offsets w') :
    ∃ asked, asked ++ [.getExecutableMethodFileOffsets target method] <+: w'.requests ∧
      dev.offsets asked target method = .ok offsets := by
  unfold getExecutableMethodFileOffsetsWithRetry at h
  split at h
  · obtain ⟨answer, v, hget, h⟩ := bind_eq_ok.mp h
    cases answer with
    | error status => cases h
    | ok offsets' =>
      cases h
      exact getOffsets_ok hget
  · exact retryOffsets_ok h

end Offsets

/-! ### The probes -/

theorem inquiry_retryOffsets (target : TargetProcess) (method : MethodDescriptor) : ∀ retries : Nat,
    Inquiry (retryOffsets dev target method retries)
  | 0 => by
    refine (inquiry_getOffsets _ _).bind fun offsets => ?_
    cases offsets with
    | ok offsets => exact .pure _
    | error status => exact .throw _
  | retries + 1 => by
    refine (inquiry_getOffsets _ _).bind fun offsets => ?_
    cases offsets with
    | ok offsets => exact .pure _
    | error status =>
      dsimp only
      split
      · exact .throw _
      · split
        · exact .throw _
        · exact inquiry_retryOffsets target method retries

theorem inquiry_getExecutableMethodFileOffsetsWithRetry (target : TargetProcess) (method : MethodDescriptor) :
    Inquiry (getExecutableMethodFileOffsetsWithRetry dev target method) := by
  unfold getExecutableMethodFileOffsetsWithRetry
  split
  · refine (inquiry_getOffsets _ _).bind fun offsets => ?_
    cases offsets with
    | ok offsets => exact .pure _
    | error status => exact .throw _
  · exact inquiry_retryOffsets _ _ _

theorem inquiry_resolveByOffsetsApi (task : ResolvedTask) (probe : ProbeConfig) (className path : String) :
    Inquiry (resolveByOffsetsApi dev task probe className path) := by
  refine (Within.lift _).bind fun _ => (Within.lift _).bind fun _ => (Within.lift _).bind fun _ => (Within.lift _).bind
    fun _ => (inquiry_getExecutableMethodFileOffsetsWithRetry _ _).bind fun _ => ?_
  exact (Within.lift _).bind fun _ => (Within.lift _).bind fun _ => .pure _

theorem MethodDescriptor.new_eq_ok {className methodName : String} {parameters : List String}
    {method : MethodDescriptor} (h : MethodDescriptor.new className methodName parameters = .ok method) :
    method = ⟨className, methodName, parameters⟩ := by
  obtain ⟨_, -, h⟩ := andThen_eq_ok.mp h
  obtain ⟨_, -, h⟩ := andThen_eq_ok.mp h
  obtain ⟨_, -, h⟩ := andThen_eq_ok.mp h
  exact (Except.ok.inj h).symm

/-- A probe that is resolved by its class has the place that the API gave for its class and its method. -/
theorem resolveByOffsetsApi_ok {task : ResolvedTask} {probe : ProbeConfig} {className path : String}
    {p : ResolvedProbe} {w w' : World} (h : (resolveByOffsetsApi dev task probe className path).run w = .ok p w') :
    p.probe = probe ∧ p.bpfProgramPath = path ∧
      ∃ methodName, probe.methodName = some methodName ∧
        Answered dev w'.requests className methodName p.filename p.offset := by
  obtain ⟨methodName, hmethod, h⟩ := bind_lift_eq_ok.mp h
  obtain ⟨uid, -, h⟩ := bind_lift_eq_ok.mp h
  obtain ⟨target, -, h⟩ := bind_lift_eq_ok.mp h
  obtain ⟨method, hdescriptor, h⟩ := bind_lift_eq_ok.mp h
  obtain rfl := MethodDescriptor.new_eq_ok hdescriptor
  obtain ⟨answer, v, hget, h⟩ := bind_eq_ok.mp h
  obtain ⟨offsets, hoffsets, h⟩ := bind_lift_eq_ok.mp h
  obtain ⟨offset, hoffset, h⟩ := bind_lift_eq_ok.mp h
  obtain ⟨asked, hasked, hanswer⟩ := getExecutableMethodFileOffsetsWithRetry_ok hget
  cases h
  refine ⟨rfl, rfl, methodName, okOr_eq_ok.mp hmethod, asked, target, _, offsets, hasked, ?_, rfl, ?_⟩
  · rw [hanswer, okOr_eq_ok.mp hoffsets]
  · exact tryI32_eq_ok.mp (mapError_eq_ok.mp hoffset)

theorem within_findInOatFiles (methodSignature : String) : ∀ filePaths : List String,
    Within (OnlyAsked fun _ => True) (findInOatFiles dev methodSignature filePaths)
  | [] => .pure _
  | _ :: filePaths => by
    refine (within_any_ask).attempt.bind fun _ => ?_
    dsimp only
    split
    · exact .pure _
    · exact within_findInOatFiles methodSignature filePaths

theorem within_resolveByOatdump (probe : ProbeConfig) (path : String) :
    Within (OnlyAsked fun _ => True) (resolveByOatdump dev probe path) := by
  refine (Within.lift _).bind fun _ => (within_findInOatFiles _ _).bind fun _ => ?_
  exact (Within.lift _).bind fun _ => .pure _

theorem resolveByOatdump_ok {probe : ProbeConfig} {path : String} {p : ResolvedProbe} {w w' : World}
    (h : (resolveByOatdump dev probe path).run w = .ok p w') : p.probe = probe ∧ p.bpfProgramPath = path := by
  obtain ⟨_, -, h⟩ := bind_lift_eq_ok.mp h
  obtain ⟨_, v, -, h⟩ := bind_eq_ok.mp h
  obtain ⟨_, -, h⟩ := bind_lift_eq_ok.mp h
  cases h
  exact ⟨rfl, rfl⟩

/-- A probe that has a class name is resolved without `oatdump`. -/
theorem preliminary_resolveProbe (task : ResolvedTask) {probe : ProbeConfig} {className : String}
    (h : probe.fullyQualifiedClassName = some className) : Preliminary (resolveProbe dev task probe) := by
  refine (Within.lift _).bind fun bpfName => (Within.lift _).bind fun _ => ?_
  rw [h]
  exact (inquiry_resolveByOffsetsApi _ _ _ _).preliminary.bind fun _ => (preliminary_armBinder _).bind fun _ => .pure _

/-! ### The polls -/

theorem inquiry_pollMaps : ∀ mapPaths : List String, Inquiry (pollMaps dev mapPaths)
  | [] => .pure _
  | _ :: mapPaths => (inquiry_ask rfl).attempt.bind fun _ => (inquiry_pollMaps mapPaths).bind fun _ => .pure _

theorem within_attach (task : ResolvedTask) (probe : ResolvedProbe) :
    Within (OnlyAsked fun _ => True) (attach dev task probe) := by
  unfold attach bpfPerfEventOpen
  exact within_any_ask

theorem within_runTask (task : ResolvedTask) (probes : List ResolvedProbe) :
    Within (OnlyAsked fun _ => True) (runTask dev task probes) := by
  refine (Within.forM fun probe _ => within_attach task probe).bind fun _ => (Within.lift _).bind fun _ => ?_
  exact ((inquiry_pollMaps _).mono fun _ _ h => h.mono fun _ _ => trivial).bind fun _ => .lift _

end Requests

/-! ### A device and a config -/

def allFlags : Flags where
  enableUprobestats := true
  uprobestatsSupportUpdateDeviceIdleTempAllowlist := true
  executableMethodFileOffsets := true
  uprobestatsMonitorDisruptiveAppActivities := true
  enableBitmapInstrumentation := true
  enableBitmapSnapshot := true
  enableBinderTransaction := true
  useProcessObserverApi := false

/-- A user build on which every call succeeds and the system server runs as process 100. -/
def quietDevice (config : UprobestatsConfig) : Device where
  flags := allFlags
  buildType := .ok (some "user")
  config := .ok config
  proc _ := some [some ⟨Text.utf8 "100", true, some (Text.utf8 "system_server")⟩]
  offsets _ _ _ := .ok (some ⟨"/system/framework/oat/arm64/services.odex", 4096⟩)
  oatdump _ _ := .ok ⟨true, [], []⟩
  parseJson _ := none
  unsetOffset _ := 0
  perfEventOpen _ := 0
  openInterfaces _ := 0
  firstInterface _ := 0
  registerProcessObserver _ := .ok ()
  startEvents _ := []
  startPolls _ := []
  pollRegistry _ _ := .ok ()

def oneTask (probeConfigs : List ProbeConfig) : UprobestatsConfig where
  tasks := [{
    probeConfigs
    targetProcessName := some "system_server"
    durationSeconds := some 1
    targetProcessSelection := some 1 }]

def taskOf (probeConfigs : List ProbeConfig) : ResolvedTask where
  task := { probeConfigs, durationSeconds := some 1 }
  durationSeconds := 1
  processName := "system_server"
  pid := 100
  uid := 1000
  bpfMapPaths := []

def binderProbe (interfaceName : String) (methodIds : List Int64) : ProbeConfig where
  bpfName := some "prog_Binder_uprobe_exec_transact_internal"
  fullyQualifiedClassName := some "android.os.Binder"
  methodName := some "execTransactInternal"
  binderTransactionFilters := [⟨some interfaceName, methodIds⟩]

end UprobeStats
