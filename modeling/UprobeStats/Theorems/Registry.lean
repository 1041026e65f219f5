import UprobeStats.Registry
import UprobeStats.Theorems.Ports

/-! What a thread may do. Whatever the ring of a map gives, the thread that polls it makes only the calls that the
    handler of that map is for: each atom has one map, names of packages are not written on a user build, and the
    atoms of a config are those that it names. -/

namespace UprobeStats
open Rust Effect

/-! ### The calls of a map -/

/-- The config of the task logs under this atom. -/
def ResolvedTask.Logs (task : ResolvedTask) (id : UInt32) : Prop :=
  ∃ c atomId, task.task.statsdLoggingConfig = some c ∧ c.atomId = some atomId ∧ atomId.toInt = id.toNat

section Serves
variable (flags : Flags) (env : Env) (task : ResolvedTask) (mapPath : String)

/-- The map that the atom is written for. -/
def Atom.Serves : Atom → Prop
  | .bitmapAllocated uid _ _ => mapPath = bitmapAllocationHandlerV0.mapPath ∧ uid = task.uid
  | .bitmapAllocationSnapshot uid _ _ _ _ _ _ =>
    mapPath = bitmapAllocationHandlerV1.mapPath ∧ flags.enableBitmapSnapshot = true ∧ uid = task.uid
  | .setComponentEnabledSetting _ _ _ _ _ =>
    mapPath = componentEnabledSettingHandler.mapPath ∧ env.isUserBuild = false
  | .disabledLauncherActivityUids _ _ => mapPath = componentEnabledSettingHandler.mapPath
  | .bindServiceLockedWithBalFlags _ _ _ _ _ _ => mapPath = bindServiceLockedHandler.mapPath ∧ env.isUserBuild = false
  | .bindServiceLockedWithBalFlagsUids _ _ => mapPath = bindServiceLockedHandler.mapPath

def StatsEvent.Serves (event : StatsEvent) : Prop :=
  mapPath = binderTransactionHandler.mapPath ∧ flags.enableBinderTransaction = true ∧ event.atomId = 915 ∨
    mapPath ∈ [callTimestampHandler.mapPath, callResultHandler.mapPath, setUidTempAllowlistStateRecordHandler.mapPath] ∧
      task.Logs event.atomId

def Call.Serves : Call → Prop
  | .statsWrite atom => atom.Serves flags env task mapPath
  | .statsEvent event => event.Serves flags task mapPath
  | .service => mapPath ∈ [componentEnabledSettingHandler.mapPath, bindServiceLockedHandler.mapPath]
  | .isLauncherActivity _ _ _ => mapPath = componentEnabledSettingHandler.mapPath
  | .getUidForPackage _ => mapPath ∈ [componentEnabledSettingHandler.mapPath, bindServiceLockedHandler.mapPath]
  | .pollRingBuf path _ => path = mapPath

end Serves

/-! ### Handlers that keep to their calls -/

/-- The program adds only calls that it may make, and keeps what the fields of the handler hold. -/
def Keeps {H T : Type} (may : Call → Prop) (holds : H → Prop) (s t : Session H T) : Prop :=
  holds s.handler → holds t.handler ∧ ∃ calls, t.calls = s.calls ++ calls ∧ ∀ c ∈ calls, may c

section Keeps
variable {H T α : Type} {may : Call → Prop} {holds : H → Prop}

instance : Std.Refl (Keeps (T := T) may holds) := ⟨fun _ hs => ⟨hs, [], by simp, by simp⟩⟩

instance : IsTrans (Session H T) (Keeps may holds) := ⟨fun s t u hst htu hs => by
  obtain ⟨ht, calls, hcalls, hmay⟩ := hst hs
  obtain ⟨hu, calls', hcalls', hmay'⟩ := htu ht
  refine ⟨hu, calls ++ calls', by rw [hcalls', hcalls, List.append_assoc], fun c hc => ?_⟩
  exact (List.mem_append.mp hc).elim (hmay c) (hmay' c)⟩

theorem keeps_call {c : Call} (hc : may c) (answer : List Call → Except Error α) :
    Within (Keeps (T := T) may holds) (call c answer) := by
  intro s hs
  rw [after_call]
  exact ⟨hs, [c], rfl, by simpa using hc⟩

theorem keeps_modifyHandler {f : H → H} (hf : ∀ h, holds h → holds (f h)) :
    Within (Keeps (T := T) may holds) (modifyHandler f) :=
  .modify fun s hs => ⟨hf _ hs, [], by simp, by simp⟩

theorem keeps_logRecord {E : Type} {convert : StatsdLoggingConfig → T → Except Error E}
    {write : E → Handling H T PUnit} {task : ResolvedTask} {data : T}
    (hwrite : ∀ c event, task.task.statsdLoggingConfig = some c → convert c data = .ok event →
      Within (Keeps may holds) (write event)) : Within (Keeps may holds) (logRecord convert write task data) := by
  unfold logRecord
  cases hconfig : task.task.statsdLoggingConfig with
  | none => exact .pure _
  | some c => exact .lift_bind fun event hevent => hwrite c event hconfig hevent

section Loop
variable {h : Handler H T} {env : Env} {task : ResolvedTask} (hholds : holds h.default)
  (hitem : ∀ item, Within (Keeps may holds) (h.onItem env task item))
  (hfinished : Within (Keeps may holds) (h.onFinished env)) (hpoll : ∀ timeout, may (.pollRingBuf h.mapPath timeout))
include hitem hfinished hpoll

theorem keeps_pollLoop (duration : Nat) : ∀ rounds : List (Round T),
    Within (Keeps may holds) (pollLoop h env task h.mapPath duration rounds)
  | [] => .pure _
  | round :: rounds => by
    unfold pollLoop
    split
    · exact hfinished.bind fun _ => .pure _
    · refine (Within.lift _).bind fun timeout => (keeps_call (hpoll timeout) _).bind fun items => ?_
      refine (Within.forM fun item _ => ?_).bind fun _ => keeps_pollLoop duration rounds
      exact (Within.modify fun s hs => ⟨hs, [], by simp, by simp⟩).bind fun _ => hitem item

include hholds in
theorem keeps_pollLoopGeneric (duration : Nat) (rounds : List (Round T)) :
    Within (Keeps may holds) (pollLoopGeneric h env task h.mapPath duration rounds) := by
  rw [pollLoopGeneric, if_neg (not_not_intro rfl)]
  refine (keeps_modifyHandler fun _ _ => hholds).bind fun _ => ?_
  exact keeps_pollLoop hitem hfinished hpoll duration rounds

end Loop
end Keeps

/-! ### The handlers -/

section Handlers
variable {flags : Flags} {env : Env} {task : ResolvedTask}

theorem logs_of_atomId {c : StatsdLoggingConfig} {id : UInt32} (hconfig : task.task.statsdLoggingConfig = some c)
    (h : atomId c = .ok id) : task.Logs id := by
  obtain ⟨x, hx, h⟩ := andThen_eq_ok.mp h
  rw [tryU32] at h
  split at h
  · rename_i hrange
    cases h
    refine ⟨c, x, hconfig, okOr_eq_ok.mp hx, ?_⟩
    rw [UInt32.toNat_ofNat', Nat.mod_eq_of_lt (by omega)]
    omega
  · cases h

theorem keeps_writeUnlessUserBuild {T : Type} {may : Call → Prop} {holds : Unit → Prop} {atom : Atom}
    (h : env.isUserBuild = false → may (.statsWrite atom)) :
    Within (Keeps (T := T) may holds) (writeUnlessUserBuild env atom) := by
  unfold writeUnlessUserBuild
  split
  · exact .pure _
  · rename_i hbuild
    exact keeps_call (h (Bool.eq_false_iff.mpr hbuild)) _

/-- What a registered handler must do: keep to the calls of its map, and hold nothing but events of its map. -/
structure Registered.Serves (flags : Flags) (env : Env) (task : ResolvedTask) (r : Registered)
    (holds : r.H → Prop) : Prop where
  default : holds r.handler.default
  onItem : ∀ item, Within (Keeps (Call.Serves flags env task r.handler.mapPath) holds) (r.handler.onItem env task item)
  onFinished : Within (Keeps (Call.Serves flags env task r.handler.mapPath) holds) (r.handler.onFinished env)
  socket : ∀ h, holds h → ∀ event ∈ r.socket h,
    r.handler.mapPath = updateDeviceIdleTempAllowlistRecordHandler.mapPath ∧ task.Logs event.atomId

theorem serves_bindServiceLocked :
    Registered.Serves flags env task ⟨_, _, bindServiceLockedHandler, fun _ => []⟩ fun _ => True where
  default := trivial
  onItem item := by
    refine (Within.lift _).bind fun _ => (Within.lift _).bind fun _ => (Within.lift _).bind fun _ => ?_
    refine (Within.lift _).bind fun _ => (Within.lift _).bind fun _ => ?_
    unfold BindServiceLockedHandler.report
    split
    · exact .pure _
    · refine (keeps_writeUnlessUserBuild fun hbuild => ⟨rfl, hbuild⟩).bind fun _ => ?_
      have hmem : bindServiceLockedHandler.mapPath ∈
        [componentEnabledSettingHandler.mapPath, bindServiceLockedHandler.mapPath] := by simp
      refine (keeps_call hmem _).bind fun _ => (keeps_call hmem _).bind fun _ => ?_
      exact (keeps_call hmem _).bind fun _ => keeps_call (by rfl) _
  onFinished := .pure _
  socket _ _ _ h := by cases h

theorem serves_componentEnabledSetting :
    Registered.Serves flags env task ⟨_, _, componentEnabledSettingHandler, fun _ => []⟩ fun _ => True where
  default := trivial
  onItem item := by
    have hmem : componentEnabledSettingHandler.mapPath ∈
      [componentEnabledSettingHandler.mapPath, bindServiceLockedHandler.mapPath] := by simp
    refine (Within.lift _).bind fun _ => (Within.lift _).bind fun _ => (Within.lift _).bind fun _ => ?_
    refine (keeps_call hmem _).bind fun _ => (keeps_call (by rfl) _).bind fun _ => ?_
    split
    · exact .pure _
    · refine (keeps_writeUnlessUserBuild fun hbuild => ⟨rfl, hbuild⟩).bind fun _ => ?_
      split
      · exact (keeps_call hmem _).bind fun _ => (keeps_call hmem _).bind fun _ => keeps_call (by rfl) _
      · exact .pure _
  onFinished := .pure _
  socket _ _ _ h := by cases h

theorem serves_binderTransaction (hflag : flags.enableBinderTransaction = true) :
    Registered.Serves flags env task ⟨_, _, binderTransactionHandler, fun _ => []⟩ fun _ => True where
  default := trivial
  onItem _ := (Within.lift _).bind fun _ => keeps_call (.inl ⟨rfl, hflag, rfl⟩) _
  onFinished := .pure _
  socket _ _ _ h := by cases h

/-- A handler that writes one event under the atom of the config. -/
theorem serves_logRecord {T : Type} {h : Handler Unit T} {convert : StatsdLoggingConfig → T → Except Error StatsEvent}
    (hpath : h.mapPath ∈
      [callTimestampHandler.mapPath, callResultHandler.mapPath, setUidTempAllowlistStateRecordHandler.mapPath])
    (honItem : ∀ item, h.onItem env task item = logRecord convert writeEvent task item)
    (hfinished : h.onFinished env = pure ⟨⟩)
    (hconvert : ∀ c item event, convert c item = .ok event → atomId c = .ok event.atomId) :
    Registered.Serves flags env task ⟨_, _, h, fun _ => []⟩ fun _ => True where
  default := trivial
  onItem item := by
    refine honItem item ▸ keeps_logRecord fun c event hconfig hevent => ?_
    exact keeps_call (.inr ⟨hpath, logs_of_atomId hconfig (hconvert c item event hevent)⟩) _
  onFinished := hfinished ▸ .pure _
  socket _ _ _ h := by cases h

theorem serves_callTimestamp :
    Registered.Serves flags env task ⟨_, _, callTimestampHandler, fun _ => []⟩ fun _ => True := by
  refine serves_logRecord (by simp) (fun item => callTimestamp_onItem env task item) rfl fun c item event h => ?_
  obtain ⟨id, hid, h⟩ := andThen_eq_ok.mp h
  obtain ⟨_, -, h⟩ := andThen_eq_ok.mp h
  obtain ⟨_, -, h⟩ := andThen_eq_ok.mp h
  cases h
  exact hid

theorem serves_callResult : Registered.Serves flags env task ⟨_, _, callResultHandler, fun _ => []⟩ fun _ => True := by
  refine serves_logRecord (by simp) (fun item => callResult_onItem env task item) rfl fun c item event h => ?_
  obtain ⟨id, hid, h⟩ := andThen_eq_ok.mp h
  obtain ⟨_, -, h⟩ := andThen_eq_ok.mp h
  cases h
  exact hid

theorem serves_setUidTempAllowlistState :
    Registered.Serves flags env task ⟨_, _, setUidTempAllowlistStateRecordHandler, fun _ => []⟩ fun _ => True := by
  refine serves_logRecord (by simp) (fun item => setUid_onItem env task item) rfl fun c item event h => ?_
  obtain ⟨id, hid, h⟩ := andThen_eq_ok.mp h
  obtain ⟨_, -, h⟩ := andThen_eq_ok.mp h
  cases h
  exact hid

theorem serves_updateDeviceIdleTempAllowlist :
    Registered.Serves flags env task ⟨_, _, updateDeviceIdleTempAllowlistRecordHandler, id⟩
      fun written => ∀ event ∈ written, task.Logs event.atomId where
  default _ h := by cases h
  onItem item := by
    show Within _ (UpdateDeviceIdleTempAllowlistRecordHandler.onItem env task item)
    rw [update_onItem]
    refine keeps_logRecord fun c event hconfig hevent => ?_
    refine keeps_modifyHandler fun written hwritten event' hevent' => ?_
    rcases List.mem_append.mp hevent' with hold | hnew
    · exact hwritten event' hold
    · obtain rfl := List.mem_singleton.mp hnew
      obtain ⟨id, hid, hevent⟩ := andThen_eq_ok.mp hevent
      obtain ⟨_, -, hevent⟩ := andThen_eq_ok.mp hevent
      obtain ⟨_, -, hevent⟩ := andThen_eq_ok.mp hevent
      cases hevent
      exact logs_of_atomId hconfig hid
  onFinished := .pure _
  socket h hholds event hevent := ⟨rfl, hholds event hevent⟩

theorem serves_bitmapAllocationV0 :
    Registered.Serves flags env task ⟨_, _, bitmapAllocationHandlerV0, fun _ => []⟩ fun _ => True where
  default := trivial
  onItem _ := (Within.lift _).bind fun _ => (Within.lift _).bind fun _ => keeps_call ⟨rfl, rfl⟩ _
  onFinished := .pure _
  socket _ _ _ h := by cases h

/-- The bitmaps of the handler are the process's own. -/
def BitmapAllocationHandlerV1.OfUid (uid : Int32) (h : BitmapAllocationHandlerV1) : Prop :=
  ∀ metadata, metadata ∈ h.values ∨ metadata ∈ h.bitmapSnapshotAtMaxSize → metadata.uid = uid

namespace BitmapAllocationHandlerV1
variable {uid : Int32} {h : BitmapAllocationHandlerV1}

theorem OfUid.insert (hh : h.OfUid uid) (p : UInt64) {metadata : BitmapMetadata} (hmetadata : metadata.uid = uid) :
    ({ h with bitmaps := h.bitmaps.insert p metadata }).OfUid uid := by
  rintro m (hm | hm)
  · obtain ⟨entry, hentry, rfl⟩ := List.mem_map.mp hm
    rw [AList.entries_insert] at hentry
    rcases List.mem_cons.mp hentry with rfl | hold
    · exact hmetadata
    · exact hh _ (.inl (List.mem_map_of_mem ((List.kerase_sublist _ _).mem hold)))
  · exact hh m (.inr hm)

theorem OfUid.erase (hh : h.OfUid uid) (p : UInt64) : ({ h with bitmaps := h.bitmaps.erase p }).OfUid uid := by
  rintro m (hm | hm)
  · obtain ⟨entry, hentry, rfl⟩ := List.mem_map.mp hm
    exact hh _ (.inl (List.mem_map_of_mem ((List.kerase_sublist _ _).mem hentry)))
  · exact hh m (.inr hm)

theorem OfUid.takeSnapshot (hh : h.OfUid uid) : h.takeSnapshot.OfUid uid := by
  unfold BitmapAllocationHandlerV1.takeSnapshot
  split
  · exact fun m hm => hh m (.inl (hm.elim id id))
  · exact hh

end BitmapAllocationHandlerV1

section Snapshot
variable {holds : BitmapAllocationHandlerV1 → Prop}

theorem keeps_writeSnapshot (hflag : flags.enableBitmapSnapshot = true) (snapshotId : Int64) (atMaxSize : Bool)
    {bitmaps : List BitmapMetadata} (hbitmaps : ∀ metadata ∈ bitmaps, metadata.uid = task.uid) :
    Within (Keeps (Call.Serves flags env task bitmapAllocationHandlerV1.mapPath) holds)
      (BitmapAllocationHandlerV1.writeSnapshot env snapshotId atMaxSize bitmaps) :=
  .forM fun metadata hmem => keeps_call ⟨rfl, hflag, hbitmaps metadata hmem⟩ _

end Snapshot

theorem serves_bitmapAllocationV1 (hflag : flags.enableBitmapSnapshot = true) :
    Registered.Serves flags env task ⟨_, _, bitmapAllocationHandlerV1, fun _ => []⟩ fun h => h.OfUid task.uid where
  default := by rintro m (hm | hm) <;> cases hm
  onItem item := by
    show Within _ (BitmapAllocationHandlerV1.onItem env task item)
    unfold BitmapAllocationHandlerV1.onItem
    split
    · refine Within.get.bind fun _ => (Within.lift _).bind fun _ => (Within.lift _).bind fun _ => ?_
      refine (Within.lift _).bind fun _ => (keeps_call ⟨rfl, rfl⟩ _).bind fun _ => ?_
      refine (keeps_modifyHandler fun h hh => hh.insert _ rfl).bind fun _ => (Within.lift _).bind fun _ => ?_
      refine Within.get.bind fun _ => (Within.lift _).bind fun _ => ?_
      refine (keeps_modifyHandler ?_).bind fun _ => keeps_modifyHandler ?_
      · exact fun h hh => hh
      · exact fun h hh => BitmapAllocationHandlerV1.OfUid.takeSnapshot hh
    · split
      · refine (keeps_modifyHandler fun h hh => hh.erase _).bind fun _ => (Within.lift _).bind fun _ => ?_
        exact Within.get.bind fun _ => (Within.lift _).bind fun _ => keeps_modifyHandler fun h hh => hh
      · split
        · exact (Within.lift _).bind fun _ => keeps_modifyHandler fun h hh => hh
        · exact .pure _
  onFinished := by
    -- what is written is what the fields hold when the loop ends, so the relation is used from that state
    refine Within.get_bind fun s hs => ?_
    refine ((keeps_writeSnapshot hflag _ _ fun m hm => hs m (.inr hm)).bind fun _ => ?_) s hs
    exact Within.get_bind fun t ht => keeps_writeSnapshot hflag _ _ (fun m hm => ht m (.inl hm)) t ht
  socket _ _ _ h := by cases h

end Handlers

/-! ### The threads -/

section Threads
variable {flags : Flags} {env : Env} {task : ResolvedTask}

/-- The paths that have a handler. -/
def registeredPaths (flags : Flags) : List String :=
  [updateDeviceIdleTempAllowlistRecordHandler.mapPath, setUidTempAllowlistStateRecordHandler.mapPath,
    componentEnabledSettingHandler.mapPath, callResultHandler.mapPath, callTimestampHandler.mapPath] ++
  (if flags.enableBinderTransaction then [binderTransactionHandler.mapPath] else []) ++
  [bitmapAllocationHandlerV1.mapPath, bindServiceLockedHandler.mapPath]

def HandlerRegistry.Serves (flags : Flags) (env : Env) (task : ResolvedTask) (registry : HandlerRegistry) : Prop :=
  ∀ mapPath r, registry.map.lookup mapPath = some r → ∃ holds, r.Serves flags env task holds

theorem lookup_registerHandler {H T : Type} {h : Handler H T} {registry : HandlerRegistry} {socket : H → StatsSocket}
    {mapPath : String} : (registerHandler h registry socket).map.lookup mapPath =
      if mapPath = h.mapPath then some ⟨H, T, h, socket⟩ else registry.map.lookup mapPath := by
  show (registry.map.insert h.mapPath ⟨H, T, h, socket⟩).lookup mapPath = _
  split
  · rename_i heq
    rw [heq, AList.lookup_insert]
  · rename_i hne
    rw [AList.lookup_insert_ne hne]

theorem serves_registerHandler {H T : Type} {h : Handler H T} {registry : HandlerRegistry} {socket : H → StatsSocket}
    {holds : H → Prop} (hregistry : registry.Serves flags env task)
    (hh : Registered.Serves flags env task ⟨H, T, h, socket⟩ holds) :
    (registerHandler h registry socket).Serves flags env task := by
  intro mapPath r hr
  rw [lookup_registerHandler] at hr
  split at hr
  · cases hr
    exact ⟨holds, hh⟩
  · exact hregistry mapPath r hr

theorem serves_handlerRegistry : (handlerRegistry flags).Serves flags env task := by
  have hnew : HandlerRegistry.new.Serves flags env task := fun mapPath r h => by
    rw [HandlerRegistry.new, AList.lookup_empty] at h
    cases h
  refine serves_registerHandler ?_ serves_updateDeviceIdleTempAllowlist
  refine serves_registerHandler ?_ serves_setUidTempAllowlistState
  refine serves_registerHandler ?_ serves_componentEnabledSetting
  refine serves_registerHandler ?_ serves_callResult
  refine serves_registerHandler ?_ serves_callTimestamp
  have hbitmap : (if flags.enableBitmapSnapshot then
      registerHandler bitmapAllocationHandlerV1 (registerHandler bindServiceLockedHandler .new)
      else registerHandler bitmapAllocationHandlerV0 (registerHandler bindServiceLockedHandler .new)).Serves
        flags env task := by
    split
    · rename_i hflag
      exact serves_registerHandler (serves_registerHandler hnew serves_bindServiceLocked)
        (serves_bitmapAllocationV1 hflag)
    · exact serves_registerHandler (serves_registerHandler hnew serves_bindServiceLocked) serves_bitmapAllocationV0
  split
  · rename_i hflag
    exact serves_registerHandler hbitmap (serves_binderTransaction hflag)
  · exact hbitmap

theorem isSome_lookup_handlerRegistry {mapPath : String} :
    ((handlerRegistry flags).map.lookup mapPath).isSome ↔ mapPath ∈ registeredPaths flags := by
  have hnew : HandlerRegistry.new.map.lookup mapPath = none := AList.lookup_empty _
  have hsame : bitmapAllocationHandlerV0.mapPath = bitmapAllocationHandlerV1.mapPath := rfl
  unfold handlerRegistry registeredPaths
  cases flags.enableBitmapSnapshot <;> cases flags.enableBinderTransaction <;>
    simp only [if_true, if_false, lookup_registerHandler, hnew, hsame, List.mem_append, List.mem_cons,
      List.not_mem_nil, or_false, Bool.false_eq_true] <;> split_ifs <;> simp_all

theorem serves_pollingOf {r : Registered} {holds : r.H → Prop} (hr : r.Serves flags env task holds) (duration : Nat)
    (rounds : List (Round r.T)) :
    let polling := r.pollingOf ((pollLoopGeneric r.handler env task r.handler.mapPath duration rounds).run
      { handler := r.handler.default })
    (∀ call ∈ polling.calls, call.Serves flags env task r.handler.mapPath) ∧ ∀ event ∈ polling.written,
      r.handler.mapPath = updateDeviceIdleTempAllowlistRecordHandler.mapPath ∧ task.Logs event.atomId := by
  have hkeeps := keeps_pollLoopGeneric hr.default hr.onItem hr.onFinished (fun _ => rfl) duration rounds
    { handler := r.handler.default } hr.default
  obtain ⟨hholds, calls, hcalls, hmay⟩ := hkeeps
  cases hrun : (pollLoopGeneric r.handler env task r.handler.mapPath duration rounds).run
      { handler := r.handler.default } with
  | ok expired s =>
    rw [hrun] at hholds hcalls
    obtain rfl : s.calls = calls := hcalls
    exact ⟨hmay, hr.socket _ hholds⟩
  | error e s =>
    rw [hrun] at hholds hcalls
    obtain rfl : s.calls = calls := hcalls
    exact ⟨hmay, hr.socket _ hholds⟩

/-- Whatever the device answers and the ring of a map gives, the thread that polls the map does only what the map is
    for; and where no handler is registered under the flags, it does nothing. -/
theorem thread_serves_map (flags : Flags) (env : Env) (mapPath : String) (task : ResolvedTask) (duration : Nat)
    (rounds : ∀ r : Registered, List (Round r.T)) :
    let polling := pollRegistry flags env mapPath task duration rounds
    (∀ call ∈ polling.calls, call.Serves flags env task mapPath) ∧
      (∀ event ∈ polling.written,
        mapPath = updateDeviceIdleTempAllowlistRecordHandler.mapPath ∧ task.Logs event.atomId) ∧
      (mapPath ∉ registeredPaths flags →
        polling = ⟨.error (.message s!"unsupported map_path: {mapPath}"), [], []⟩) := by
  dsimp only
  unfold pollRegistry
  cases hlookup : (handlerRegistry flags).map.lookup mapPath with
  | none => exact ⟨by simp, by simp, fun _ => rfl⟩
  | some r =>
    have hregistry : (handlerRegistry flags).Serves flags env task := serves_handlerRegistry
    obtain ⟨holds, hr⟩ := hregistry mapPath r hlookup
    obtain rfl := (handlerRegistry flags).mapPath_eq mapPath r hlookup
    obtain ⟨hcalls, hwritten⟩ := serves_pollingOf hr duration (rounds r)
    exact ⟨hcalls, hwritten, fun hnot => absurd (isSome_lookup_handlerRegistry.mp (by rw [hlookup]; rfl)) hnot⟩

end Threads

end UprobeStats
