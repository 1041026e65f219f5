import UprobeStats.ProcessManagement
import UprobeStats.Theorems.CallArguments
import UprobeStats.Theorems.EventContent
import UprobeStats.Theorems.Reports
import Mathlib.Data.List.Basic

/-! The threads of the C++ program and their port. A handler fails on a record whose numbers or text it cannot
    convert, and its loop ends there; `doPoll` cuts the numbers down and goes on. So the port has logged what the
    thread logs for the records before the first one that its handler does not take. -/

namespace UprobeStats
open Rust Effect Text

/-! ### How the handlers convert their records -/

/-- A handler that converts a record before it writes an event. -/
def logRecord {H T E : Type} (convert : StatsdLoggingConfig → T → Except Error E) (write : E → Handling H T PUnit)
    (task : ResolvedTask) (data : T) : Handling H T PUnit :=
  match task.task.statsdLoggingConfig with
  | none => pure ⟨⟩
  | some statsdLoggingConfig => lift (convert statsdLoggingConfig data) >>= write

def atomId (statsdLoggingConfig : StatsdLoggingConfig) : Except Error UInt32 := do
  let atomId ← okOr statsdLoggingConfig.atomId "atom_id required if statsd_logging_config provided"
  tryU32 atomId.toInt

def convertCallTimestamp (statsdLoggingConfig : StatsdLoggingConfig) (data : CallTimestamp) : Except Error StatsEvent := do
  let atomId ← atomId statsdLoggingConfig
  let event ← tryI32 data.event.toNat
  let timestampNs ← tryI64 data.timestampNs.toNat
  .ok ⟨atomId, [.int32 event, .int64 timestampNs]⟩

def convertCallResult (statsdLoggingConfig : StatsdLoggingConfig) (data : CallResult) : Except Error StatsEvent := do
  let atomId ← atomId statsdLoggingConfig
  let primitiveArguments ←
    statsdLoggingConfig.primitiveArgumentPositions.mapM (CallResultHandler.primitiveArgument data)
  .ok ⟨atomId, primitiveArguments.map .int32⟩

def convertSetUid (statsdLoggingConfig : StatsdLoggingConfig) (data : SetUidTempAllowlistStateRecord) :
    Except Error StatsEvent := do
  let atomId ← atomId statsdLoggingConfig
  let uid ← tryI32 data.uid.toNat
  .ok ⟨atomId, [.int32 uid, .bool data.onAllowlist]⟩

def convertUpdate (statsdLoggingConfig : StatsdLoggingConfig) (data : UpdateDeviceIdleTempAllowlistRecord) :
    Except Error AStatsEvent := do
  let atomId ← atomId statsdLoggingConfig
  let reason ← bytesAsStr data.reason
  cString reason
  .ok ⟨atomId, [.number (.int32 data.changingUid), .number (.bool data.adding), .number (.int64 data.durationMs),
    .number (.int32 data.type), .number (.int32 data.reasonCode), .string (utf8 reason),
    .number (.int32 data.callingUid)]⟩

section Convert
variable (env : Env) (task : ResolvedTask)

theorem callTimestamp_onItem (data : CallTimestamp) :
    CallTimestampHandler.onItem env task data = logRecord convertCallTimestamp writeEvent task data := by
  unfold CallTimestampHandler.onItem logRecord
  cases task.task.statsdLoggingConfig with
  | none => rfl
  | some c =>
    simp only [convertCallTimestamp, atomId, lift_andThen, bind_assoc]
    rfl

theorem callResult_onItem (data : CallResult) :
    CallResultHandler.onItem env task data = logRecord convertCallResult writeEvent task data := by
  unfold CallResultHandler.onItem logRecord
  cases task.task.statsdLoggingConfig with
  | none => rfl
  | some c =>
    simp only [convertCallResult, atomId, lift_andThen, bind_assoc]
    rfl

theorem setUid_onItem (data : SetUidTempAllowlistStateRecord) :
    SetUidTempAllowlistStateRecordHandler.onItem env task data = logRecord convertSetUid writeEvent task data := by
  unfold SetUidTempAllowlistStateRecordHandler.onItem logRecord
  cases task.task.statsdLoggingConfig with
  | none => rfl
  | some c =>
    simp only [convertSetUid, atomId, lift_andThen, bind_assoc]
    rfl

theorem update_onItem (data : UpdateDeviceIdleTempAllowlistRecord) :
    UpdateDeviceIdleTempAllowlistRecordHandler.onItem env task data =
      logRecord convertUpdate writeAStatsEvent task data := by
  unfold UpdateDeviceIdleTempAllowlistRecordHandler.onItem logRecord
  cases task.task.statsdLoggingConfig with
  | none => rfl
  | some c =>
    simp only [convertUpdate, atomId, lift_andThen, bind_assoc]
    rfl

end Convert

/-! ### Numbers and texts that fit -/

theorem tryI32_uint32 {x : UInt32} {y : Int32} : tryI32 x.toNat = .ok y ↔ x.toNat < 2 ^ 31 ∧ y = x.toInt32 := by
  have hint : x.toInt32.toInt = x.toBitVec.toInt := rfl
  have hnat : x.toBitVec.toNat = x.toNat := rfl
  have hlt := y.toInt_lt
  rw [BitVec.toInt_eq_toNat_cond, hnat] at hint
  rw [tryI32_eq_ok, ← Int32.toInt_inj, hint]
  split <;> omega

theorem tryI32_uint64 {x : UInt64} {y : Int32} :
    tryI32 x.toNat = .ok y ↔ x.toNat < 2 ^ 31 ∧ y = x.toUInt32.toInt32 := by
  have hcut := x.toNat_toUInt32
  have hiff := tryI32_uint32 (x := x.toUInt32) (y := y)
  have hlt := y.toInt_lt
  rw [tryI32_eq_ok] at hiff ⊢
  constructor
  · intro h
    obtain ⟨-, hy⟩ := hiff.mp (by omega)
    exact ⟨by omega, hy⟩
  · rintro ⟨hx, hy⟩
    have := hiff.mpr ⟨by omega, hy⟩
    omega

theorem tryI64_uint64 {x : UInt64} {y : Int64} : tryI64 x.toNat = .ok y ↔ x.toNat < 2 ^ 63 ∧ y = x.toInt64 := by
  have hint : x.toInt64.toInt = x.toBitVec.toInt := rfl
  have hnat : x.toBitVec.toNat = x.toNat := rfl
  have hlt := y.toInt_lt
  rw [BitVec.toInt_eq_toNat_cond, hnat] at hint
  rw [tryI64_eq_ok, ← Int64.toInt_inj, hint]
  split <;> omega

def StatsdLoggingConfig.hasAtomId (c : StatsdLoggingConfig) : Bool :=
  c.atomId.any fun atomId => decide (0 ≤ atomId.toInt ∧ atomId.toInt < 2 ^ 32)

theorem atomId_eq_ok {c : StatsdLoggingConfig} {id : UInt32} :
    atomId c = .ok id ↔ c.hasAtomId = true ∧ id = (c.atomId.getD 0).toInt32.toUInt32 := by
  rw [atomId, andThen_eq_ok, StatsdLoggingConfig.hasAtomId]
  simp only [okOr_eq_ok]
  cases c.atomId with
  | none => simp
  | some x =>
    simp only [Option.some.injEq, exists_eq_left', Option.any_some, decide_eq_true_eq, Option.getD_some, tryU32]
    constructor
    · intro h
      split at h
      · rename_i hx
        cases h
        exact ⟨hx, (CallResultHandler.toUInt32_eq_of_valid (by
          rw [UInt32.toNat_ofNat', Nat.mod_eq_of_lt (by omega)]
          omega)).symm⟩
      · cases h
    · rintro ⟨hx, rfl⟩
      rw [if_pos hx]
      refine congrArg Except.ok (CallResultHandler.toUInt32_eq_of_valid ?_).symm
      rw [UInt32.toNat_ofNat', Nat.mod_eq_of_lt (by omega)]
      omega

theorem toNat_lt_ten {index : Int} (h : 0 ≤ index ∧ index < 10) : index.toNat < 10 := by omega

def CallResult.register? (data : CallResult) (index : Int) : Option UInt64 :=
  if h : 0 ≤ index ∧ index < 10 then some (data.regs ⟨index.toNat, toNat_lt_ten h⟩) else none

/-- The register of the argument at a position, if there is one. -/
def CallResult.argument? (data : CallResult) (position : Int32) : Option UInt64 := data.register? (position.toInt + 2)

theorem primitiveArgument_eq_ok {data : CallResult} {p x : Int32} :
    CallResultHandler.primitiveArgument data p = .ok x ↔
      ∃ register, data.argument? p = some register ∧ register.toNat < 2 ^ 31 ∧ x = register.toUInt32.toInt32 := by
  have hoffset : javaArgumentRegisterOffset.toInt = 2 := by decide
  rw [CallResultHandler.primitiveArgument, andThen_eq_ok]
  constructor
  · rintro ⟨index, hindex, h⟩
    obtain ⟨i, hi, h⟩ := andThen_eq_ok.mp h
    obtain ⟨register, hregister, h⟩ := andThen_eq_ok.mp h
    rw [addI32_eq_ok, hoffset] at hindex
    rw [tryU64_eq_ok, hindex] at hi
    have hnat : i.toNat = (p.toInt + 2).toNat := by omega
    rw [CallResult.register] at hregister
    split at hregister
    · rename_i hlt
      refine ⟨register, ?_, tryI32_uint64.mp h⟩
      rw [CallResult.argument?, CallResult.register?, dif_pos (by omega), ← Except.ok.inj hregister]
      simp only [hnat]
    · cases hregister
  · rintro ⟨register, hregister, hx⟩
    rw [CallResult.argument?, CallResult.register?] at hregister
    split at hregister
    · rename_i hrange
      have hsum : (Int32.ofInt (2 + p.toInt)).toInt = 2 + p.toInt :=
        Int32.toInt_ofInt_of_le (by omega) (by omega)
      have hnat : (UInt64.ofNat (p.toInt + 2).toNat).toNat = (p.toInt + 2).toNat := by
        rw [UInt64.toNat_ofNat', Nat.mod_eq_of_lt (by omega)]
      refine ⟨Int32.ofInt (2 + p.toInt), addI32_eq_ok.mpr (by rw [hsum, hoffset]), andThen_eq_ok.mpr ?_⟩
      refine ⟨UInt64.ofNat (p.toInt + 2).toNat, tryU64_eq_ok.mpr (by rw [hsum]; omega), andThen_eq_ok.mpr ?_⟩
      refine ⟨register, ?_, tryI32_uint64.mpr hx⟩
      rw [hnat, CallResult.register, dif_pos (by omega), Option.some.inj hregister]
    · cases hregister

theorem isOk_iff {ε α : Type} {x : Except ε α} : x.isOk = true ↔ ∃ a, x = .ok a := by
  cases x <;> simp [Except.isOk, Except.toBool]

theorem takeWhile_of_untilNul {bs front : List UInt8} (beyond : List UInt8) (h : untilNul bs = some front) :
    (bs ++ beyond).takeWhile (· ≠ 0) = front := by
  obtain ⟨h0, rest, rfl⟩ := untilNul_eq_some.mp h
  rw [List.append_assoc, List.takeWhile_append_of_pos fun b hb => by simpa using ne_of_mem_of_not_mem hb h0]
  simp

/-- What Rust takes for a C string is what C++ takes for one, when it is valid UTF-8. -/
theorem reason_eq_ok {n : Nat} {reason : Chars n} (beyond : List UInt8) {s : String} (h : bytesAsStr reason = .ok s) :
    cString s = .ok () ∧ (reason.bytes ++ beyond).takeWhile (· ≠ 0) = utf8 s := by
  have huntil := bytesAsStr_eq_ok.mp h
  exact ⟨if_neg (untilNul_eq_some.mp huntil).1, takeWhile_of_untilNul beyond huntil⟩

/-! ### What the handlers take -/

/-- A handler takes every record when nothing is to be logged, and else those that fit under a valid atom id. -/
def takesRecord {T : Type} (fits : StatsdLoggingConfig → T → Bool) (taskConfig : Task) (data : T) : Bool :=
  taskConfig.statsdLoggingConfig.all fun c => c.hasAtomId && fits c data

def CallTimestamp.fits (_c : StatsdLoggingConfig) (data : CallTimestamp) : Bool :=
  decide (data.event.toNat < 2 ^ 31) && decide (data.timestampNs.toNat < 2 ^ 63)

def CallResult.fits (c : StatsdLoggingConfig) (data : CallResult) : Bool :=
  c.primitiveArgumentPositions.all fun p => (data.argument? p).any fun register => decide (register.toNat < 2 ^ 31)

def SetUidTempAllowlistStateRecord.fits (_c : StatsdLoggingConfig) (data : SetUidTempAllowlistStateRecord) : Bool :=
  decide (data.uid.toNat < 2 ^ 31)

def UpdateDeviceIdleTempAllowlistRecord.fits (_c : StatsdLoggingConfig)
    (data : UpdateDeviceIdleTempAllowlistRecord) : Bool :=
  (bytesAsStr data.reason).isOk

section Takes
variable {taskConfig : Task} {c : StatsdLoggingConfig}

theorem convertCallTimestamp_eq_ok (hconfig : taskConfig.statsdLoggingConfig = some c) {data : CallTimestamp}
    {e : StatsEvent} : convertCallTimestamp c data = .ok e ↔
      (c.hasAtomId && data.fits c) = true ∧ Cxx.callTimestampEvent taskConfig data = some e := by
  simp only [convertCallTimestamp, andThen_eq_ok, atomId_eq_ok, tryI32_uint32, tryI64_uint64, Cxx.callTimestampEvent,
    hconfig, Option.map_some, Option.some.injEq, CallTimestamp.fits, Bool.and_eq_true, decide_eq_true_eq]
  constructor
  · rintro ⟨_, ⟨hid, rfl⟩, _, ⟨hevent, rfl⟩, _, ⟨htime, rfl⟩, he⟩
    exact ⟨⟨hid, hevent, htime⟩, Except.ok.inj he⟩
  · rintro ⟨⟨hid, hevent, htime⟩, rfl⟩
    exact ⟨_, ⟨hid, rfl⟩, _, ⟨hevent, rfl⟩, _, ⟨htime, rfl⟩, rfl⟩

theorem convertSetUid_eq_ok (hconfig : taskConfig.statsdLoggingConfig = some c) {data : SetUidTempAllowlistStateRecord}
    {e : StatsEvent} : convertSetUid c data = .ok e ↔
      (c.hasAtomId && data.fits c) = true ∧ Cxx.setUidTempAllowlistStateEvent taskConfig data = some e := by
  simp only [convertSetUid, andThen_eq_ok, atomId_eq_ok, tryI32_uint64, Cxx.setUidTempAllowlistStateEvent, hconfig,
    Option.map_some, Option.some.injEq, SetUidTempAllowlistStateRecord.fits, Bool.and_eq_true, decide_eq_true_eq]
  constructor
  · rintro ⟨_, ⟨hid, rfl⟩, _, ⟨huid, rfl⟩, he⟩
    exact ⟨⟨hid, huid⟩, Except.ok.inj he⟩
  · rintro ⟨⟨hid, huid⟩, rfl⟩
    exact ⟨_, ⟨hid, rfl⟩, _, ⟨huid, rfl⟩, rfl⟩

theorem convertUpdate_eq_ok (beyond : List UInt8) (hconfig : taskConfig.statsdLoggingConfig = some c)
    {data : UpdateDeviceIdleTempAllowlistRecord} {e : AStatsEvent} : convertUpdate c data = .ok e ↔
      (c.hasAtomId && data.fits c) = true ∧ Cxx.updateDeviceIdleTempAllowlistEvent beyond taskConfig data = some e := by
  simp only [convertUpdate, andThen_eq_ok, atomId_eq_ok, Cxx.updateDeviceIdleTempAllowlistEvent, hconfig,
    Option.map_some, Option.some.injEq, UpdateDeviceIdleTempAllowlistRecord.fits, Bool.and_eq_true, isOk_iff]
  constructor
  · rintro ⟨_, ⟨hid, rfl⟩, s, hs, _, -, he⟩
    rw [(reason_eq_ok beyond hs).2]
    exact ⟨⟨hid, s, hs⟩, Except.ok.inj he⟩
  · rintro ⟨⟨hid, s, hs⟩, rfl⟩
    obtain ⟨hstring, hreason⟩ := reason_eq_ok beyond hs
    rw [hreason]
    exact ⟨_, ⟨hid, rfl⟩, s, hs, _, hstring, rfl⟩

/-- What the C++ loop writes for the argument at a position. -/
def Cxx.argument (beyond : Int → UInt64) (data : CallResult) (position : Int32) : Int32 :=
  let index := position.toInt + kJavaArgumentRegisterOffset
  let register := if h : 0 ≤ index ∧ index < 10 then data.regs ⟨index.toNat, toNat_lt_ten h⟩ else beyond index
  register.toUInt32.toInt32

theorem mapM_primitiveArgument_eq_ok (beyond : Int → UInt64) {data : CallResult} : ∀ {positions xs : List Int32},
    positions.mapM (CallResultHandler.primitiveArgument data) = .ok xs ↔
      (positions.all fun p => (data.argument? p).any fun register => decide (register.toNat < 2 ^ 31)) = true ∧
        xs = positions.map (Cxx.argument beyond data) := by
  have hargument {p : Int32} {register : UInt64} (h : data.argument? p = some register) :
      Cxx.argument beyond data p = register.toUInt32.toInt32 := by
    rw [CallResult.argument?, CallResult.register?] at h
    split at h
    · rename_i hrange
      have hindex : 0 ≤ p.toInt + Cxx.kJavaArgumentRegisterOffset ∧ p.toInt + Cxx.kJavaArgumentRegisterOffset < 10 := hrange
      rw [Cxx.argument, dif_pos hindex, ← Option.some.inj h]
      rfl
    · cases h
  intro positions xs
  rw [mapM_eq_ok]
  induction positions generalizing xs with
  | nil => simp
  | cons p ps ih =>
    rw [List.forall₂_cons_left_iff, List.all_cons, Bool.and_eq_true, List.map_cons]
    constructor
    · rintro ⟨x, xs, hx, hrest, rfl⟩
      obtain ⟨register, hregister, hlt, rfl⟩ := primitiveArgument_eq_ok.mp hx
      obtain ⟨hall, rfl⟩ := ih.mp hrest
      refine ⟨⟨?_, hall⟩, by rw [hargument hregister]⟩
      simpa [hregister] using hlt
    · rintro ⟨⟨hp, hall⟩, rfl⟩
      obtain ⟨register, hregister, hlt⟩ := (Option.any_eq_true _ _).mp hp
      rw [hargument hregister]
      exact ⟨_, _, primitiveArgument_eq_ok.mpr ⟨register, hregister, of_decide_eq_true hlt, rfl⟩,
        ih.mpr ⟨hall, rfl⟩, rfl⟩

theorem convertCallResult_eq_ok (beyond : Int → UInt64) (hconfig : taskConfig.statsdLoggingConfig = some c)
    {data : CallResult} {e : StatsEvent} : convertCallResult c data = .ok e ↔
      (c.hasAtomId && data.fits c) = true ∧ Cxx.callResultEvent beyond taskConfig data = some e := by
  have hevent : Cxx.callResultEvent beyond taskConfig data = some ⟨(c.atomId.getD 0).toInt32.toUInt32,
      (c.primitiveArgumentPositions.map (Cxx.argument beyond data)).map .int32⟩ := by
    rw [Cxx.callResultEvent, hconfig, List.map_map]
    rfl
  simp only [convertCallResult, andThen_eq_ok, atomId_eq_ok, mapM_primitiveArgument_eq_ok beyond, hevent,
    Option.some.injEq, CallResult.fits, Bool.and_eq_true]
  constructor
  · rintro ⟨_, ⟨hid, rfl⟩, _, ⟨hargs, rfl⟩, he⟩
    exact ⟨⟨hid, hargs⟩, Except.ok.inj he⟩
  · rintro ⟨⟨hid, hargs⟩, rfl⟩
    exact ⟨_, ⟨hid, rfl⟩, _, ⟨hargs, rfl⟩, rfl⟩

end Takes

/-! ### The handlers log -/

section Logs
variable {H T E : Type} {h : Handler H T} {logged : Session H T → List E}
  {convert : StatsdLoggingConfig → T → Except Error E} {write : E → Handling H T PUnit}
  {fits : StatsdLoggingConfig → T → Bool} {event : Task → T → Option E}

theorem onItem_ok_of_convert
    (honItem : ∀ env task data, h.onItem env task data = logRecord convert write task data)
    (hwrite : ∀ e s, ∃ t, (write e).run s = .ok ⟨⟩ t ∧ logged t = logged s ++ [e])
    (hconvert : ∀ taskConfig c data e, taskConfig.statsdLoggingConfig = some c →
      (convert c data = .ok e ↔ (c.hasAtomId && fits c data) = true ∧ event taskConfig data = some e))
    (hsome : ∀ taskConfig data, (event taskConfig data).isSome = taskConfig.statsdLoggingConfig.isSome)
    (env : Env) (task : ResolvedTask) (item : T) (s : Session H T) (htakes : takesRecord fits task.task item = true) :
    ∃ t, (h.onItem env task item).run s = .ok ⟨⟩ t ∧ logged t = logged s ++ (event task.task item).toList := by
  rw [honItem, logRecord]
  have hdefined := hsome task.task item
  cases hconfig : task.task.statsdLoggingConfig with
  | none =>
    rw [hconfig] at hdefined
    rw [Option.isSome_eq_false_iff.mp hdefined |> Option.isNone_iff_eq_none.mp]
    exact ⟨s, rfl, (List.append_nil _).symm⟩
  | some c =>
    rw [hconfig] at hdefined
    rw [takesRecord, hconfig] at htakes
    obtain ⟨e, he⟩ := Option.isSome_iff_exists.mp hdefined
    obtain ⟨t, ht, hlogged⟩ := hwrite e s
    rw [he]
    exact ⟨t, (run_lift_bind_of_ok ((hconvert _ _ _ _ hconfig).mpr ⟨htakes, he⟩)).trans ht, hlogged⟩

theorem onItem_error_of_convert
    (honItem : ∀ env task data, h.onItem env task data = logRecord convert write task data)
    (hconvert : ∀ taskConfig c data e, taskConfig.statsdLoggingConfig = some c →
      (convert c data = .ok e ↔ (c.hasAtomId && fits c data) = true ∧ event taskConfig data = some e))
    (env : Env) (task : ResolvedTask) (item : T) (s : Session H T) (htakes : takesRecord fits task.task item = false) :
    ∃ e, (h.onItem env task item).run s = .error e s := by
  rw [honItem, logRecord]
  cases hconfig : task.task.statsdLoggingConfig with
  | none =>
    rw [takesRecord, hconfig] at htakes
    cases htakes
  | some c =>
    rw [takesRecord, hconfig] at htakes
    cases hc : convert c item with
    | error e => exact ⟨e, bind_lift_eq_error.mpr (.inl ⟨hc, rfl⟩)⟩
    | ok e =>
      obtain ⟨hfits, -⟩ := (hconvert _ _ _ _ hconfig).mp hc
      exact absurd (htakes.symm.trans hfits) Bool.false_ne_true

end Logs

/-- A handler that converts its records to events without strings. -/
theorem logs_of_convert {T : Type} {h : Handler Unit T} {env : Env} {convert : StatsdLoggingConfig → T → Except Error StatsEvent}
    {fits : StatsdLoggingConfig → T → Bool} {event : Task → T → Option StatsEvent}
    (honItem : ∀ env task data, h.onItem env task data = logRecord convert writeEvent task data)
    (hfinished : ∀ env, h.onFinished env = pure ⟨⟩)
    (hconvert : ∀ taskConfig c data e, taskConfig.statsdLoggingConfig = some c →
      (convert c data = .ok e ↔ (c.hasAtomId && fits c data) = true ∧ event taskConfig data = some e))
    (hsome : ∀ taskConfig data, (event taskConfig data).isSome = taskConfig.statsdLoggingConfig.isSome) :
    h.Logs env Session.statsEvents (takesRecord fits) fun taskConfig data => (event taskConfig data).toList where
  onItem_ok := onItem_ok_of_convert honItem (fun _ _ => ⟨_, rfl, List.filterMap_append⟩) hconvert hsome env
  onItem_error := onItem_error_of_convert honItem hconvert env
  onFinished s := by rw [hfinished]; rfl
  logged_handed _ _ := rfl
  logged_poll s _ _ := List.filterMap_append.trans (List.append_nil _)
  logged_start := rfl

section Handlers
variable {env : Env}

theorem callTimestampHandler_logs : callTimestampHandler.Logs env Session.statsEvents
    (takesRecord fun c data => data.fits c) fun taskConfig data => (Cxx.callTimestampEvent taskConfig data).toList :=
  logs_of_convert callTimestamp_onItem (fun _ => rfl)
    (fun _ _ _ _ hconfig => convertCallTimestamp_eq_ok hconfig) fun _ _ => Option.isSome_map

theorem callResultHandler_logs (beyond : Int → UInt64) : callResultHandler.Logs env Session.statsEvents
    (takesRecord fun c data => data.fits c) fun taskConfig data => (Cxx.callResultEvent beyond taskConfig data).toList :=
  logs_of_convert callResult_onItem (fun _ => rfl)
    (fun _ _ _ _ hconfig => convertCallResult_eq_ok beyond hconfig) fun _ _ => Option.isSome_map

theorem setUidTempAllowlistStateRecordHandler_logs : setUidTempAllowlistStateRecordHandler.Logs env Session.statsEvents
    (takesRecord fun c data => data.fits c)
      fun taskConfig data => (Cxx.setUidTempAllowlistStateEvent taskConfig data).toList :=
  logs_of_convert setUid_onItem (fun _ => rfl)
    (fun _ _ _ _ hconfig => convertSetUid_eq_ok hconfig) fun _ _ => Option.isSome_map

theorem updateDeviceIdleTempAllowlistRecordHandler_logs (beyond : List UInt8) :
    updateDeviceIdleTempAllowlistRecordHandler.Logs env Session.handler (takesRecord fun c data => data.fits c)
      fun taskConfig data => (Cxx.updateDeviceIdleTempAllowlistEvent beyond taskConfig data).toList where
  onItem_ok := onItem_ok_of_convert (h := updateDeviceIdleTempAllowlistRecordHandler) update_onItem (fun _ _ => ⟨_, rfl, rfl⟩)
    (fun _ _ _ _ hconfig => convertUpdate_eq_ok beyond hconfig) (fun _ _ => Option.isSome_map) env
  onItem_error := onItem_error_of_convert (h := updateDeviceIdleTempAllowlistRecordHandler) update_onItem
    (fun _ _ _ _ hconfig => convertUpdate_eq_ok beyond hconfig) env
  onFinished _ := rfl
  logged_handed _ _ := rfl
  logged_poll _ _ _ := rfl
  logged_start := rfl

end Handlers

/-! ### The ports -/

namespace Cxx
variable {T : Type} {event : Task → T → Option StatsEvent} {mapPath : String} {taskConfig : Task}

def PollOutput.event? : PollOutput → Option StatsEvent
  | .pollRingBuf _ _ => none
  | .writeEvent event => some event

/-- The events among what a thread does. -/
def threadEvents (event : Task → T → Option StatsEvent) (mapPath : String) (taskConfig : Task)
    (turns : List (PollTurn T)) : List StatsEvent :=
  (doPoll event mapPath taskConfig turns).filterMap PollOutput.event?

theorem isSupported_eq : isSupported mapPath = (branch? mapPath).isSome := by
  unfold isSupported branch?
  cases contains mapPath kGenericBpfMapDetail <;> cases contains mapPath kGenericBpfMapTimestamp <;>
    cases contains mapPath kUpdateDeviceIdleTempAllowlistMap <;> cases contains mapPath kProcessManagementMap <;> rfl

theorem filterMap_doPollFrom {event : T → Option StatsEvent} {duration : Int} :
    ∀ {now : Nat} {turns : List (PollTurn T)}, (doPollFrom event mapPath duration now turns).filterMap PollOutput.event? =
      (polledValues mapPath duration now turns).filterMap event
  | _, [] => rfl
  | now, turn :: turns => by
    rw [doPollFrom, polledValues, isSupported_eq]
    split
    · have hwrites : ((turn.values.filterMap event).map PollOutput.writeEvent).filterMap PollOutput.event? =
          turn.values.filterMap event := by
        rw [List.filterMap_map]
        exact List.filterMap_some
      rw [List.cons_append, List.filterMap_cons_none rfl, List.filterMap_append, hwrites, filterMap_doPollFrom,
        List.filterMap_append]
    · rfl

theorem threadEvents_eq {turns : List (PollTurn T)} :
    threadEvents event mapPath taskConfig turns = doPollEvents event mapPath taskConfig turns :=
  filterMap_doPollFrom

end Cxx

/-- A handler and the thread of the C++ program that polls the same map. Given the same records, the handler has
    logged what the thread writes for those before the first that it does not take; it fails on that one. -/
def Ported {H T E : Type} (h : Handler H T) (logged : Session H T → List E) (takes : Task → T → Bool)
    (branch : Cxx.Branch) (event : Task → T → Option E)
    (thread : String → Task → List (Cxx.PollTurn T) → List E) : Prop :=
  Cxx.branch? h.mapPath = some branch ∧
  ∀ (env : Env) (task : ResolvedTask) (duration : Nat) (turns : List (Turn T)) (cxxTurns : List (Cxx.PollTurn T)),
    (∀ x ∈ beforeExpiry duration turns, duration - x.elapsed < 2 ^ 31) →
    Cxx.polledValues h.mapPath (Cxx.durationNanos task.task) 0 cxxTurns =
      (beforeExpiry duration turns).flatMap (·.items) →
    let polled := (beforeExpiry duration turns).flatMap (·.items)
    let result := (pollLoopGeneric h env task h.mapPath duration (turns.map Turn.round)).run { handler := h.default }
    logged (after result) = (polled.takeWhile (takes task.task)).filterMap (event task.task) ∧
    (isOk result = true ↔ ∀ item ∈ polled, takes task.task item = true) ∧
    logged (after result) <+: thread h.mapPath task.task cxxTurns ∧
    (isOk result = true → logged (after result) = thread h.mapPath task.task cxxTurns)

section Ported
variable {H T E : Type} {h : Handler H T} {logged : Session H T → List E} {takes : Task → T → Bool}
  {event : Task → T → Option E}

theorem ported_of_logs {branch : Cxx.Branch} {thread : String → Task → List (Cxx.PollTurn T) → List E}
    (hl : ∀ env, h.Logs env logged takes fun taskConfig data => (event taskConfig data).toList) (hbranch : Cxx.branch? h.mapPath = some branch)
    (hthread : ∀ taskConfig turns,
      thread h.mapPath taskConfig turns = Cxx.doPollEvents event h.mapPath taskConfig turns) :
    Ported h logged takes branch event thread := by
  refine ⟨hbranch, fun env task duration turns cxxTurns hfits hsame => ?_⟩
  obtain ⟨hlogged, hok⟩ := logs_pollLoopGeneric task (hl env) hfits
  rw [← List.filterMap_eq_flatMap_toList] at hlogged
  have hall := List.all_eq_true (p := takes task.task) (l := (beforeExpiry duration turns).flatMap (·.items))
  rw [← hok] at hall
  refine ⟨hlogged, hall, ?_, fun hsuccess => ?_⟩
  · rw [hlogged, hthread, Cxx.doPollEvents, hsame]
    exact (List.takeWhile_prefix _).filterMap _
  · rw [hlogged, hthread, Cxx.doPollEvents, hsame, List.takeWhile_eq_self_iff.mpr (hall.mp hsuccess)]

end Ported

/-- The four maps that both programs poll. -/
theorem threads_ported (beyondRegisters : Int → UInt64) (beyondReason : List UInt8) :
    Ported callTimestampHandler Session.statsEvents (takesRecord fun c data => data.fits c) .callTimestamp
      Cxx.callTimestampEvent (Cxx.threadEvents Cxx.callTimestampEvent) ∧
    Ported callResultHandler Session.statsEvents (takesRecord fun c data => data.fits c) .callResult
      (Cxx.callResultEvent beyondRegisters) (Cxx.threadEvents (Cxx.callResultEvent beyondRegisters)) ∧
    Ported setUidTempAllowlistStateRecordHandler Session.statsEvents (takesRecord fun c data => data.fits c)
      .setUidTempAllowlistState Cxx.setUidTempAllowlistStateEvent
      (Cxx.threadEvents Cxx.setUidTempAllowlistStateEvent) ∧
    Ported updateDeviceIdleTempAllowlistRecordHandler Session.handler (takesRecord fun c data => data.fits c)
      .updateDeviceIdleTempAllowlist (Cxx.updateDeviceIdleTempAllowlistEvent beyondReason)
      (Cxx.doPollEvents (Cxx.updateDeviceIdleTempAllowlistEvent beyondReason)) :=
  ⟨ported_of_logs (fun _ => callTimestampHandler_logs) (by decide +kernel) fun _ _ => Cxx.threadEvents_eq,
    ported_of_logs (fun _ => callResultHandler_logs beyondRegisters) (by decide +kernel) fun _ _ => Cxx.threadEvents_eq,
    ported_of_logs (fun _ => setUidTempAllowlistStateRecordHandler_logs) (by decide +kernel) fun _ _ => Cxx.threadEvents_eq,
    ported_of_logs (fun _ => updateDeviceIdleTempAllowlistRecordHandler_logs beyondReason) (by decide +kernel) fun _ _ => rfl⟩

/-! ### From the probe to the log -/

section Firings
variable {F H T E : Type} {h : Handler H T} {env : Env} {logged : Session H T → List E} {takes : Task → T → Bool}
  {event : Task → T → Option E} {duration : Nat}

/-- What the two programs log of the records that firings write where there is room for one, when the records that the
    handler takes come from `good` firings and C++ writes `content` for each. -/
theorem logs_firings (hl : h.Logs env logged takes fun taskConfig data => (event taskConfig data).toList)
    {records : F → List T} {reserved : F → Bool} {record : F → T}
    (hrecords : ∀ f, records f = if reserved f then [record f] else []) {task : ResolvedTask} {good : F → Bool}
    (hgood : ∀ f, takes task.task (record f) = good f) (content : F → E)
    (hcontent : ∀ f, event task.task (record f) = some (content f)) {turns : List (Turn F)}
    (hfits : ∀ x ∈ beforeExpiry duration turns, duration - x.elapsed < 2 ^ 31) :
    let firings := ((beforeExpiry duration turns).flatMap (·.items)).filter reserved
    let result := (pollLoopGeneric h env task h.mapPath duration ((recordedBy records turns).map Turn.round)).run
      { handler := h.default }
    logged (after result) = (firings.takeWhile good).map content ∧
    (isOk result = true ↔ ∀ f ∈ firings, good f = true) ∧
    ∀ cxxTurns, Cxx.polledValues h.mapPath (Cxx.durationNanos task.task) 0 cxxTurns =
        (beforeExpiry duration (recordedBy records turns)).flatMap (·.items) →
      Cxx.doPollEvents event h.mapPath task.task cxxTurns = firings.map content := by
  have hwritten := flatMap_records hrecords
  have htakes : takes task.task ∘ record = good := funext hgood
  have hevents (firings : List F) :
      (firings.map record).filterMap (event task.task) = firings.map content := by
    rw [List.filterMap_map]
    exact (congrArg (List.filterMap · firings) (funext hcontent)).trans (congrFun List.filterMap_eq_map _)
  obtain ⟨hlogged, hok⟩ := logs_recordedBy hl task hfits
  rw [hwritten] at hlogged hok
  rw [← List.filterMap_eq_flatMap_toList] at hlogged
  refine ⟨?_, ?_, fun cxxTurns hsame => ?_⟩
  · rw [hlogged, List.takeWhile_map, hevents, htakes]
  · rw [hok, List.all_map, htakes, List.all_eq_true]
  · rw [Cxx.doPollEvents, hsame, beforeExpiry_recordedBy, items_recordedBy, hwritten, hevents]

/-- The same of a program that always finds room. -/
theorem logs_writtenBy (hl : h.Logs env logged takes fun taskConfig data => (event taskConfig data).toList)
    (program : PtRegs → Memory → Option T → Option T) {record : Firing T → T}
    (hprogram : ∀ f, program f.ctx f.mem (some f.slot) = some (record f)) {task : ResolvedTask}
    {good : Firing T → Bool} (hgood : ∀ f, takes task.task (record f) = good f) (content : Firing T → E)
    (hcontent : ∀ f, event task.task (record f) = some (content f)) {turns : List (Turn (Firing T))}
    (hfits : ∀ x ∈ beforeExpiry duration turns, duration - x.elapsed < 2 ^ 31) :
    let firings := (beforeExpiry duration turns).flatMap (·.items)
    let result := (pollLoopGeneric h env task h.mapPath duration ((writtenBy program turns).map Turn.round)).run
      { handler := h.default }
    logged (after result) = (firings.takeWhile good).map content ∧
    (isOk result = true ↔ ∀ f ∈ firings, good f = true) ∧
    ∀ cxxTurns, Cxx.polledValues h.mapPath (Cxx.durationNanos task.task) 0 cxxTurns =
        (beforeExpiry duration (writtenBy program turns)).flatMap (·.items) →
      Cxx.doPollEvents event h.mapPath task.task cxxTurns = firings.map content := by
  have hwritten : writtenBy program turns =
      recordedBy (fun f => (program f.ctx f.mem (some f.slot)).toList) turns := by
    simp only [writtenBy, recordedBy, List.filterMap_eq_flatMap_toList]
  have hrecords (f : Firing T) : (program f.ctx f.mem (some f.slot)).toList = if true then [record f] else [] := by
    rw [hprogram, if_pos rfl, Option.toList_some]
  have hlogs := logs_firings hl hrecords hgood content hcontent hfits
  rw [hwritten]
  simpa only [List.filter_true] using hlogs

end Firings

section Valid
variable {taskConfig : Task} {c : StatsdLoggingConfig} {atomId : Int64} {id : UInt32}

/-- Under a valid atom id it is only the record that decides whether the handler takes it. -/
theorem takesRecord_of_valid (hconfig : taskConfig.statsdLoggingConfig = some c) (hatom : c.atomId = some atomId)
    (hid : (id.toNat : Int) = atomId.toInt) {T : Type} (fits : StatsdLoggingConfig → T → Bool) (data : T) :
    takesRecord fits taskConfig data = fits c data := by
  have hlt := id.toNat_lt
  have hvalid : c.hasAtomId = true := by
    rw [StatsdLoggingConfig.hasAtomId, hatom, Option.any_some, decide_eq_true_eq]
    omega
  rw [takesRecord, hconfig, Option.all_some, hvalid, Bool.true_and]

theorem cxxAtomId_of_valid (hatom : c.atomId = some atomId) (hid : (id.toNat : Int) = atomId.toInt) :
    (c.atomId.getD 0).toInt32.toUInt32 = id := by
  rw [hatom]
  exact CallResultHandler.toUInt32_eq_of_valid hid

end Valid

def setUidContent (id : UInt32) (ctx : PtRegs) : StatsEvent :=
  ⟨id, [.int32 (ctx.regs 2).toUInt32.toInt32, .bool (ctx.regs 3 != 0)]⟩

/-- The bytes of the reason that an update is given on its stack. -/
def updateReason (ctx : PtRegs) (mem : Memory) : List UInt8 := recorded mem (readRef mem (ctx.sp + 40)) 256

def updateContent (id : UInt32) (ctx : PtRegs) (mem : Memory) : AStatsEvent :=
  ⟨id, [.number (.int32 (ctx.regs 3).toUInt32.toInt32), .number (.bool (ctx.regs 4 != 0)),
    .number (.int64 (ctx.regs 5).toInt64), .number (.int32 (ctx.regs 6).toUInt32.toInt32),
    .number (.int32 (ctx.regs 7).toUInt32.toInt32), .string (updateReason ctx mem),
    .number (.int32 (readUser32 mem (ctx.sp + 44)).toInt32)]⟩

theorem isOk_bytesAsStr_updateReason {ctx : PtRegs} {mem : Memory} {dest : Chars 256} :
    (bytesAsStr (recordStringArgFromSp mem ctx 256 40 dest)).isOk = (fromUtf8? (updateReason ctx mem)).isSome := by
  rw [Bool.eq_iff_iff, isOk_iff]
  exact bytesAsStr_recordString (by decide) (by decide)

theorem takeWhile_updateReason {ctx : PtRegs} {mem : Memory} {dest : Chars 256} (beyond : List UInt8) :
    ((recordStringArgFromSp mem ctx 256 40 dest).bytes ++ beyond).takeWhile (· ≠ 0) = updateReason ctx mem :=
  takeWhile_of_untilNul beyond (untilNul_recordString (by decide) (by decide))

/-- Under a valid atom id the two programs log the changes of the allowlists as the registers and the stack of the
    probed method have them. The monitors in Rust end at the first uid that is no `int` and at the first reason that
    is not UTF-8; the threads in C++ log all of them. -/
theorem allowlists_logged {task : ResolvedTask} {c : StatsdLoggingConfig} {atomId : Int64} {id : UInt32}
    (hconfig : task.task.statsdLoggingConfig = some c) (hatom : c.atomId = some atomId)
    (hid : (id.toNat : Int) = atomId.toInt) (env : Env) (duration : Nat) :
    (∀ turns : List (Turn (Firing SetUidTempAllowlistStateRecord)),
      (∀ x ∈ beforeExpiry duration turns, duration - x.elapsed < 2 ^ 31) →
      let h := setUidTempAllowlistStateRecordHandler
      let written := writtenBy setUidTempAllowlistState turns
      let firings := (beforeExpiry duration turns).flatMap (·.items)
      let result := (pollLoopGeneric h env task h.mapPath duration (written.map Turn.round)).run { handler := () }
      (after result).statsEvents =
        (firings.takeWhile fun f => decide ((f.ctx.regs 2).toNat < 2 ^ 31)).map (fun f => setUidContent id f.ctx) ∧
      (isOk result = true ↔ ∀ f ∈ firings, (f.ctx.regs 2).toNat < 2 ^ 31) ∧
      ∀ cxxTurns, Cxx.polledValues h.mapPath (Cxx.durationNanos task.task) 0 cxxTurns =
          (beforeExpiry duration written).flatMap (·.items) →
        Cxx.threadEvents Cxx.setUidTempAllowlistStateEvent h.mapPath task.task cxxTurns =
          firings.map fun f => setUidContent id f.ctx) ∧
    ∀ turns : List (Turn (Firing UpdateDeviceIdleTempAllowlistRecord)),
      (∀ x ∈ beforeExpiry duration turns, duration - x.elapsed < 2 ^ 31) →
      let h := updateDeviceIdleTempAllowlistRecordHandler
      let written := writtenBy updateDeviceIdleTempAllowlist turns
      let firings := (beforeExpiry duration turns).flatMap (·.items)
      let result := (pollLoopGeneric h env task h.mapPath duration (written.map Turn.round)).run { handler := [] }
      (after result).handler = (firings.takeWhile fun f => (fromUtf8? (updateReason f.ctx f.mem)).isSome).map
        (fun f => updateContent id f.ctx f.mem) ∧
      (isOk result = true ↔ ∀ f ∈ firings, (fromUtf8? (updateReason f.ctx f.mem)).isSome = true) ∧
      ∀ beyond cxxTurns, Cxx.polledValues h.mapPath (Cxx.durationNanos task.task) 0 cxxTurns =
          (beforeExpiry duration written).flatMap (·.items) →
        Cxx.doPollEvents (Cxx.updateDeviceIdleTempAllowlistEvent beyond) h.mapPath task.task cxxTurns =
          firings.map fun f => updateContent id f.ctx f.mem := by
  have hcut := cxxAtomId_of_valid hatom hid
  have htakes {T : Type} (fits : StatsdLoggingConfig → T → Bool) := takesRecord_of_valid hconfig hatom hid fits
  refine ⟨fun turns hfits => ?_, fun turns hfits => ?_⟩
  · obtain ⟨hlogged, hok, hthread⟩ := logs_writtenBy (@setUidTempAllowlistStateRecordHandler_logs env)
      setUidTempAllowlistState (fun _ => rfl) (fun f => htakes _ _) (fun f => setUidContent id f.ctx) (fun f => by
        rw [Cxx.setUidTempAllowlistStateEvent, hconfig, Option.map_some, hcut]
        rfl) hfits
    refine ⟨hlogged, hok.trans (forall₂_congr fun f _ => decide_eq_true_iff), fun cxxTurns hsame => ?_⟩
    rw [Cxx.threadEvents_eq]
    exact hthread cxxTurns hsame
  · have hlogs (beyond : List UInt8) := logs_writtenBy (@updateDeviceIdleTempAllowlistRecordHandler_logs env beyond)
      updateDeviceIdleTempAllowlist (fun _ => rfl) (fun f => (htakes _ _).trans isOk_bytesAsStr_updateReason)
      (fun f => updateContent id f.ctx f.mem) (fun f => by
        rw [Cxx.updateDeviceIdleTempAllowlistEvent, hconfig, Option.map_some, hcut]
        dsimp only
        rw [takeWhile_updateReason]
        rfl) hfits
    exact ⟨(hlogs []).1, (hlogs []).2.1, fun beyond => (hlogs beyond).2.2⟩

def allowlistTask : ResolvedTask :=
  { someTask with task := { statsdLoggingConfig := some { atomId := some 915 }, durationSeconds := some 1 } }

def uidFiring (uid : UInt64) : Firing SetUidTempAllowlistStateRecord :=
  ⟨⟨fun i => if i = 2 then uid else 1, 0⟩, fun _ => none, 0, ⟨0, false⟩⟩

def updateFiring (content : List UInt8) : Firing UpdateDeviceIdleTempAllowlistRecord :=
  ⟨⟨fun _ => 1, 0x0FD8⟩, .ofBytes 0x1000 (Bytes.toLe 4 0x1008 ++ Bytes.toLe 4 1000 ++ List.replicate 8 0 ++
    Bytes.toLe 4 (2 * content.length) ++ List.replicate 4 0 ++ content ++ [0]), 0,
    ⟨0, false, 0, 0, 0, .zeros 256, 0⟩⟩

/-- After a uid of minus one, whose register is no `int`, the monitor is gone; the thread logs what comes then. -/
theorem allowlists_logged_minus_one :
    (after ((pollLoopGeneric setUidTempAllowlistStateRecordHandler quietEnv allowlistTask
      setUidTempAllowlistStateRecordHandler.mapPath 1000 ((writtenBy setUidTempAllowlistState
        [⟨0, [uidFiring 1000, uidFiring 0xFFFFFFFF, uidFiring 1001]⟩]).map Turn.round)).run
          { handler := () })).statsEvents = [⟨915, [.int32 1000, .bool true]⟩] ∧
    Cxx.threadEvents Cxx.setUidTempAllowlistStateEvent setUidTempAllowlistStateRecordHandler.mapPath allowlistTask.task
        [⟨0, [⟨1000, true⟩, ⟨0xFFFFFFFF, true⟩, ⟨1001, true⟩], 1⟩] =
      [⟨915, [.int32 1000, .bool true]⟩, ⟨915, [.int32 (-1), .bool true]⟩, ⟨915, [.int32 1001, .bool true]⟩] ∧
    (after ((pollLoopGeneric updateDeviceIdleTempAllowlistRecordHandler quietEnv allowlistTask
      updateDeviceIdleTempAllowlistRecordHandler.mapPath 1000 ((writtenBy updateDeviceIdleTempAllowlist
        [⟨0, [updateFiring [0x68, 0x69]]⟩]).map Turn.round)).run { handler := [] })).handler =
      [⟨915, [.number (.int32 1), .number (.bool true), .number (.int64 1), .number (.int32 1), .number (.int32 1),
        .string [0x68, 0x69], .number (.int32 1000)]⟩] := by
  obtain ⟨huid, hupdate⟩ := @allowlists_logged allowlistTask _ _ 915 rfl rfl (by decide) quietEnv 1000
  obtain ⟨hlogged, -, hthread⟩ := huid [⟨0, [uidFiring 1000, uidFiring 0xFFFFFFFF, uidFiring 1001]⟩] (by decide)
  refine ⟨hlogged.trans (by decide +kernel), (hthread _ (by decide +kernel)).trans (by decide +kernel), ?_⟩
  exact (hupdate [⟨0, [updateFiring [0x68, 0x69]]⟩] (by decide)).1.trans (by decide +kernel)

end UprobeStats
