import UprobeStats.Theorems.ComponentNames
import UprobeStats.Theorems.EventContent
import UprobeStats.Theorems.Reports
import UprobeStats.UprobeStatsService

/-! Disruptive apps, from the probe to the atoms: on a device with its service, the two monitors report what the calls
    they are attached to were given, as far as the records have room for it and as the packages of the device are. -/

namespace UprobeStats
open Rust Effect Text

/-! ### Programs that are answered -/

/-- The program succeeds with this value, and has made these calls and nothing else. -/
def Yields {H T α : Type} (x : Handling H T α) (a : α) (calls : List Call) : Prop :=
  ∀ s, x.run s = .ok a { s with calls := s.calls ++ calls }

namespace Yields
variable {H T α β : Type} {x : Handling H T α} {f : α → Handling H T β} {a : α} {b : β} {calls calls' : List Call}

theorem pure (a : α) : Yields (pure a : Handling H T α) a [] := fun s => by
  rw [List.append_nil]
  rfl

theorem call {c : Call} {answer : List Call → Except Error α} (h : ∀ calls, answer calls = .ok a) :
    Yields (call c answer : Handling H T α) a [c] := fun s => by
  simp [UprobeStats.call, h, run_lift]

theorem bind (hx : Yields x a calls) (hf : Yields (f a) b calls') : Yields (x >>= f) b (calls ++ calls') := by
  intro s
  rw [EStateM.run_bind, hx s]
  dsimp only
  rw [hf, List.append_assoc]

theorem atoms (h : Yields x a calls) (s : Session H T) :
    ∃ t, x.run s = .ok a t ∧ t.atoms = s.atoms ++ calls.filterMap Call.atom? :=
  ⟨_, h s, List.filterMap_append⟩

end Yields

section Served
variable {env : Env} {pm : PackageManager} {T : Type}

theorem Env.ServedBy.yields_statsWrite (h : env.ServedBy pm) (atom : Atom) :
    Yields (UprobeStats.statsWrite env atom : Handling Unit T Unit) () [.statsWrite atom] :=
  .call fun calls => h.statsWrite calls atom

theorem Env.ServedBy.yields_service (h : env.ServedBy pm) :
    Yields (uprobestatsService env : Handling Unit T Unit) () [.service] :=
  .call h.service

theorem Env.ServedBy.yields_getUidForPackage (h : env.ServedBy pm) (packageName : String) :
    Yields (UprobeStats.getUidForPackage env packageName : Handling Unit T Int32)
      (UprobeStatsServiceImpl.getUidForPackage pm packageName) [.getUidForPackage packageName] :=
  .call fun calls => h.getUidForPackage calls packageName

theorem Env.ServedBy.yields_isLauncherActivity (h : env.ServedBy pm) (packageName className : String) (b : Bool) :
    Yields (UprobeStats.isLauncherActivity env packageName className b : Handling Unit T Bool)
      (UprobeStatsServiceImpl.isLauncherActivity pm packageName className b)
      [.isLauncherActivity packageName className b] :=
  .call fun calls => h.isLauncherActivity calls packageName className b

theorem Env.ServedBy.yields_writeUnlessUserBuild (h : env.ServedBy pm) (atom : Atom) :
    Yields (writeUnlessUserBuild env atom : Handling Unit T Unit) ()
      (if env.isUserBuild then [] else [.statsWrite atom]) := by
  unfold writeUnlessUserBuild
  split
  · exact .pure _
  · exact h.yields_statsWrite atom

end Served

/-! ### The strings of a call -/

/-- No process maps the page at zero. -/
def Memory.PageZeroUnmapped (mem : Memory) : Prop := ∀ a < 4096, mem a = none

/-- A reference that is null, or that of an ASCII string. -/
def Memory.MayHold (mem : Memory) (jstring : UInt64) : Option String → Prop
  | none => jstring = 0
  | some s => mem.HoldsString jstring s ∧ NulFreeAscii s

def Memory.MayReferTo (mem : Memory) (src : UInt64) (s : Option String) : Prop :=
  ∃ ref : UInt32, mem.read? 4 src = some (Bytes.toLe 4 ref.toNat) ∧ mem.MayHold ref.toUInt64 s

/-- What a program that copies so many bytes leaves of a string; of a null reference it makes an empty one. -/
def keptOf (maxLength : UInt32) (s : Option String) : String := firstChars (s.getD "") (maxLength.toNat - 1)

section Strings
variable {mem : Memory} {maxLength : UInt32} {s : Option String}

theorem Memory.PageZeroUnmapped.read?_eq_none (h : mem.PageZeroUnmapped) {src : UInt64} (hsrc : src < 4096) (n : Nat) :
    mem.read? (n + 1) src = none := by
  rw [Memory.read?, h src hsrc]
  rfl

theorem recorded_of_mayHold (hzero : mem.PageZeroUnmapped) {jstring : UInt64} (h : mem.MayHold jstring s) :
    recorded mem jstring maxLength = utf8 (keptOf maxLength s) := by
  cases s with
  | none =>
    obtain rfl := h
    have hempty : keptOf maxLength none = "" := firstChars_of_length_le (Nat.zero_le _)
    rw [recorded_of_fault (.inl (hzero.read?_eq_none (by decide) 3)), hempty]
    rfl
  | some s =>
    rw [recorded_of_holds h.1 h.2, keptOf, Option.getD_some]
    by_cases hlength : s.length ≤ maxLength.toNat - 1
    · rw [Nat.min_eq_left hlength, firstChars_of_length_le (Nat.le_refl _), firstChars_of_length_le hlength]
    · rw [Nat.min_eq_right (by omega)]

theorem bytesAsStr_of_mayHold (hzero : mem.PageZeroUnmapped) {jstring : UInt64} (h : mem.MayHold jstring s)
    (hpos : 0 < maxLength.toNat) {n : Nat} (hle : maxLength.toNat ≤ n) (dest : Chars n) :
    bytesAsStr (recordString mem jstring maxLength dest) = .ok (keptOf maxLength s) :=
  bytesAsStr_of_recorded hpos hle (recorded_of_mayHold hzero h) dest

theorem bytesAsStr_of_mayReferTo (hzero : mem.PageZeroUnmapped) {src : UInt64} (h : mem.MayReferTo src s)
    (hpos : 0 < maxLength.toNat) {n : Nat} (hle : maxLength.toNat ≤ n) (dest : Chars n) :
    bytesAsStr (recordString mem (readRef mem src) maxLength dest) = .ok (keptOf maxLength s) := by
  obtain ⟨ref, hread, hholds⟩ := h
  rw [readRef_of_read hread]
  exact bytesAsStr_of_mayHold hzero hholds hpos hle dest

/-- What is read at a null object is null. -/
theorem Memory.PageZeroUnmapped.readRef_eq_zero (h : mem.PageZeroUnmapped) {src : UInt64} (hsrc : src < 4096) :
    readRef mem src = 0 := by
  rw [readRef, readUser32_of_fault (h.read?_eq_none hsrc 3)]
  rfl

theorem pageZeroUnmapped_ofBytes {base : UInt64} {bs : List UInt8} (hbase : 4096 ≤ base.toNat)
    (hend : base.toNat + bs.length ≤ 2 ^ 64) : (Memory.ofBytes base bs).PageZeroUnmapped := by
  intro a ha
  have ha : a.toNat < 4096 := UInt64.lt_iff_toNat_lt.mp ha
  rw [Memory.ofBytes, List.getElem?_eq_none_iff, UInt64.toNat_sub]
  omega

/-- A component name that is null, or one of these names of a package and a class. -/
def Memory.MayHoldComponent (mem : Memory) (component : UInt64) : Option (String × String) → Prop
  | none => component = 0
  | some (packageName, className) =>
    mem.MayReferTo (component + kComponentNamePackageOffset) (some packageName) ∧
      mem.MayReferTo (component + kComponentNameClassOffset) (some className)

theorem bytesAsStr_of_mayHoldComponent (hzero : mem.PageZeroUnmapped) {ptr : UInt64}
    {component : Option (String × String)} (h : mem.MayHoldComponent ptr component) (hpos : 0 < maxLength.toNat) {n : Nat}
    (hle : maxLength.toNat ≤ n) (dest dest' : Chars n) :
    bytesAsStr (recordString mem (readRef mem (ptr + kComponentNamePackageOffset)) maxLength dest) =
        .ok (keptOf maxLength (component.map (·.1))) ∧
      bytesAsStr (recordString mem (readRef mem (ptr + kComponentNameClassOffset)) maxLength dest') =
        .ok (keptOf maxLength (component.map (·.2))) := by
  cases component with
  | none =>
    obtain rfl := h
    have hnull : mem.MayHold 0 none := rfl
    rw [hzero.readRef_eq_zero (by decide), hzero.readRef_eq_zero (by decide)]
    exact ⟨bytesAsStr_of_mayHold hzero hnull hpos hle dest, bytesAsStr_of_mayHold hzero hnull hpos hle dest'⟩
  | some names =>
    exact ⟨bytesAsStr_of_mayReferTo hzero h.1 hpos hle dest, bytesAsStr_of_mayReferTo hzero h.2 hpos hle dest'⟩

end Strings

/-! ### Handlers that decode and report -/

/-- A program that is given no slot writes nothing. -/
theorem toList_of_full {T : Type} {program : Option T → Option T} (hnone : program none = none) {slot : Option T}
    (h : slot.isSome = false) : (program slot).toList = [] := by
  cases slot with
  | none => rw [hnone, Option.toList_none]
  | some output => cases h

theorem logs_of_decode {T D : Type} {h : Handler Unit T} {env : Env} {decode : T → Except Error D}
    {report : D → Handling Unit T PUnit} {reports : D → List Atom}
    (honItem : ∀ task data, h.onItem env task data = lift (decode data) >>= report)
    (hfinished : h.onFinished env = pure ⟨⟩)
    (hreport : ∀ d, ∃ calls, Yields (report d) ⟨⟩ calls ∧ calls.filterMap Call.atom? = reports d) :
    h.Logs env Session.atoms (fun _ data => (decode data).isOk)
      fun _ data => (decode data).toOption.toList.flatMap reports where
  onItem_ok task data s htakes := by
    cases hdecode : decode data with
    | error e =>
      rw [hdecode] at htakes
      cases htakes
    | ok d =>
      obtain ⟨calls, hyields, hatoms⟩ := hreport d
      obtain ⟨t, hrun, ht⟩ := hyields.atoms s
      rw [honItem, run_lift_bind_of_ok hdecode]
      refine ⟨t, hrun, ht.trans ?_⟩
      rw [hatoms]
      exact congrArg (s.atoms ++ ·) (List.flatMap_singleton ..).symm
  onItem_error task data s htakes := by
    cases hdecode : decode data with
    | error e =>
      rw [honItem]
      exact ⟨e, bind_lift_eq_error.mpr (.inl ⟨hdecode, rfl⟩)⟩
    | ok d =>
      rw [hdecode] at htakes
      cases htakes
  onFinished s := by
    rw [hfinished]
    rfl
  logged_handed _ _ := rfl
  logged_poll s _ _ := List.filterMap_append.trans (List.append_nil _)
  logged_start := rfl

/-- A monitor that decodes each record to what its firing was about reports all firings that found room. -/
theorem reported_of_decode {F T D : Type} {h : Handler Unit T} {env : Env} {decode : T → Except Error D}
    {reports : D → List Atom}
    (hl : h.Logs env Session.atoms (fun _ data => (decode data).isOk)
      fun _ data => (decode data).toOption.toList.flatMap reports)
    (task : ResolvedTask) {records : F → List T} {reserved : F → Bool} {about : F → D}
    (hfull : ∀ f, reserved f = false → records f = [])
    (hwrites : ∀ f, reserved f = true → ∃ r, records f = [r] ∧ decode r = .ok (about f)) {duration : Nat}
    {turns : List (Turn F)} (hfits : ∀ x ∈ beforeExpiry duration turns, duration - x.elapsed < 2 ^ 31) :
    let firings := ((beforeExpiry duration turns).flatMap (·.items)).filter reserved
    let result := (pollLoopGeneric h env task h.mapPath duration ((recordedBy records turns).map Turn.round)).run
      { handler := h.default }
    (after result).atoms = firings.flatMap (fun f => reports (about f)) ∧ isOk result = true := by
  refine logs_reserved hl task hfull (fun f hreserved => ?_) hfits
  obtain ⟨r, hrecord, hdecode⟩ := hwrites f hreserved
  refine ⟨r, hrecord, ?_, ?_⟩
  · rw [hdecode]
    rfl
  · rw [hdecode]
    exact List.flatMap_singleton ..

/-! ### Services that are bound -/

/-- What a record says of a service that is bound. -/
structure Binding where
  intentPackage : String
  intentAction : String
  componentPackage : String
  componentClass : String
  flags : Int64
  callingPackage : String

def Binding.reports (isUserBuild : Bool) (pm : PackageManager) (b : Binding) : List Atom :=
  if b.flags &&& bindAllowBackgroundActivityStarts = 0 then []
  else (if isUserBuild then [] else [.bindServiceLockedWithBalFlags b.intentPackage b.flags b.callingPackage
      b.intentAction b.componentPackage b.componentClass]) ++
    [.bindServiceLockedWithBalFlagsUids (UprobeStatsServiceImpl.getUidForPackage pm b.callingPackage)
      (UprobeStatsServiceImpl.getUidForPackage pm (if b.intentPackage = "" then b.componentPackage else b.intentPackage))]

def BindServiceLocked.decode (data : BindServiceLocked) : Except Error Binding := do
  let intentPackage ← bytesAsStr data.intentPackage
  let intentAction ← bytesAsStr data.intentAction
  let componentPackage ← bytesAsStr data.intentComponentNamePackage
  let componentClass ← bytesAsStr data.intentComponentNameClass
  let callingPackage ← bytesAsStr data.callingPackage
  .ok ⟨intentPackage, intentAction, componentPackage, componentClass, data.bindFlags, callingPackage⟩

namespace BindServiceLockedHandler

def reportBinding (env : Env) (b : Binding) : Handling Unit BindServiceLocked PUnit :=
  report env b.flags b.intentPackage b.intentAction b.componentPackage b.componentClass b.callingPackage

theorem onItem_eq (env : Env) (task : ResolvedTask) (data : BindServiceLocked) :
    onItem env task data = lift data.decode >>= reportBinding env := by
  simp only [onItem, BindServiceLocked.decode, lift_andThen, bind_assoc]
  rfl

theorem yields_report {env : Env} {pm : PackageManager} (h : env.ServedBy pm) (b : Binding) :
    ∃ calls, Yields (reportBinding env b) ⟨⟩ calls ∧
      calls.filterMap Call.atom? = b.reports env.isUserBuild pm := by
  rw [reportBinding, report, Binding.reports]
  split
  · exact ⟨[], .pure _, rfl⟩
  · refine ⟨_, (h.yields_writeUnlessUserBuild _).bind <| h.yields_service.bind <|
      (h.yields_getUidForPackage _).bind <| (h.yields_getUidForPackage _).bind (h.yields_statsWrite _), ?_⟩
    cases env.isUserBuild <;> rfl

theorem logs {env : Env} {pm : PackageManager} (h : env.ServedBy pm) : bindServiceLockedHandler.Logs env Session.atoms
    (fun _ data => data.decode.isOk)
    fun _ data => data.decode.toOption.toList.flatMap (·.reports env.isUserBuild pm) :=
  logs_of_decode (onItem_eq env) rfl (yields_report h)

end BindServiceLockedHandler

/-- A call of `bindServiceLocked`, with what it is given. -/
structure BindCall where
  intentPackage : Option String
  intentAction : Option String
  component : Option (String × String)
  flags : Int64
  callingPackage : Option String

/-- A thread is in the call: its registers and its stack refer to what the call is given. -/
structure BindCall.At (c : BindCall) (ctx : PtRegs) (mem : Memory) : Prop where
  pageZero : mem.PageZeroUnmapped
  intentPackage : mem.MayReferTo (ctx.regs 4 + kIntentPackageOffset) c.intentPackage
  intentAction : mem.MayReferTo (ctx.regs 4 + kIntentActionOffset) c.intentAction
  component : ∃ ref : UInt32, mem.read? 4 (ctx.regs 4 + kIntentComponentNameOffset) = some (Bytes.toLe 4 ref.toNat) ∧
    mem.MayHoldComponent ref.toUInt64 c.component
  flags : (ctx.regs 7).toInt64 = c.flags
  callingPackage : mem.MayReferTo (ctx.sp + kCallingPackageStackFrameOffset) c.callingPackage

/-- What a record has room for. -/
def BindCall.binding (c : BindCall) : Binding where
  intentPackage := keptOf 128 c.intentPackage
  intentAction := keptOf 128 c.intentAction
  componentPackage := keptOf 128 (c.component.map (·.1))
  componentClass := keptOf 128 (c.component.map (·.2))
  flags := c.flags
  callingPackage := keptOf 128 c.callingPackage

/-- The probe fires in a call; there may be no room for its record. -/
structure BindFiring where
  call : BindCall
  ctx : PtRegs
  mem : Memory
  at_call : call.At ctx mem
  slot : Option BindServiceLocked

namespace BindFiring

def records (f : BindFiring) : List BindServiceLocked := (bindServiceLocked f.ctx f.mem f.slot).toList

theorem records_of_full (f : BindFiring) (h : f.slot.isSome = false) : f.records = [] := toList_of_full rfl h

theorem records_of_reserved (f : BindFiring) (h : f.slot.isSome = true) :
    ∃ r, f.records = [r] ∧ r.decode = .ok f.call.binding := by
  obtain ⟨output, hslot⟩ := Option.isSome_iff_exists.mp h
  have hzero := f.at_call.pageZero
  have hpos : 0 < (128 : UInt32).toNat := by decide
  have hle : (128 : UInt32).toNat ≤ maxStringLength := by decide
  obtain ⟨ref, hread, hcomponent⟩ := f.at_call.component
  obtain ⟨hpackage, hclass⟩ := bytesAsStr_of_mayHoldComponent hzero hcomponent hpos hle
    output.intentComponentNamePackage output.intentComponentNameClass
  rw [← readRef_of_read hread] at hpackage hclass
  refine ⟨_, by rw [records, hslot]; rfl, ?_⟩
  simp only [BindServiceLocked.decode, recordStringArgFromSp, hpackage, hclass, f.at_call.flags,
    bytesAsStr_of_mayReferTo hzero f.at_call.intentPackage hpos hle,
    bytesAsStr_of_mayReferTo hzero f.at_call.intentAction hpos hle,
    bytesAsStr_of_mayReferTo hzero f.at_call.callingPackage hpos hle]
  rfl

end BindFiring

/-- On a device with its service the monitor does not fail at calls that are given ASCII strings or null, and reports
    each that found room: nothing without the flag, and else the uids of who binds and of who is bound, after the names
    unless the build is a user build. -/
theorem binds_reported {env : Env} {pm : PackageManager} (henv : env.ServedBy pm) (task : ResolvedTask) {duration : Nat}
    {turns : List (Turn BindFiring)} (hfits : ∀ x ∈ beforeExpiry duration turns, duration - x.elapsed < 2 ^ 31) :
    let h := bindServiceLockedHandler
    let firings := ((beforeExpiry duration turns).flatMap (·.items)).filter (·.slot.isSome)
    let written := recordedBy BindFiring.records turns
    let result := (pollLoopGeneric h env task h.mapPath duration (written.map Turn.round)).run { handler := () }
    (after result).atoms = firings.flatMap (fun f => f.call.binding.reports env.isUserBuild pm) ∧ isOk result = true :=
  reported_of_decode (BindServiceLockedHandler.logs henv) task BindFiring.records_of_full
    BindFiring.records_of_reserved hfits

def servedEnv (isUserBuild : Bool) (pm : PackageManager) : Env where
  isUserBuild := isUserBuild
  statsWrite _ _ := .ok ()
  service _ := .ok ()
  isLauncherActivity _ packageName className b :=
    .ok (UprobeStatsServiceImpl.isLauncherActivity pm packageName className b)
  getUidForPackage _ packageName := .ok (UprobeStatsServiceImpl.getUidForPackage pm packageName)
  snapshotId _ := 0

theorem servedEnv_servedBy (isUserBuild : Bool) (pm : PackageManager) : (servedEnv isUserBuild pm).ServedBy pm :=
  ⟨fun _ => rfl, fun _ _ _ _ => rfl, fun _ _ => rfl, fun _ _ => rfl⟩

/-- The shell, and an app with one launcher activity. -/
def shellAndApp : PackageManager where
  queryIntentActivities intent _ := if intent.package = "p" then ["c"] else []
  getPackageUid packageName _ :=
    if packageName = "com.android.shell" then some 10 else if packageName = "p" then some 20 else none

/-- An intent at 0x1000 with a component name and nothing else, the stack at 0x1080 and strings behind it. -/
def bindMemory : Memory :=
  .ofBytes 0x1000 (List.replicate 20 0 ++ Bytes.toLe 4 0x1040 ++ List.replicate 40 0 ++
    List.replicate 8 0 ++ Bytes.toLe 4 0x1200 ++ Bytes.toLe 4 0x1100 ++ List.replicate 48 0 ++
    List.replicate 60 0 ++ Bytes.toLe 4 0x1300 ++ List.replicate 64 0 ++
    stringObject "p" ++ stringObject "c" ++ stringObject "shell")

def bindingShell : BindCall := ⟨none, none, some ("p", "c"), 0x00100000, some "shell"⟩

def bindRegs : PtRegs := ⟨fun i => if i = 4 then 0x1000 else if i = 7 then 0x00100000 else 0, 0x1080⟩

theorem bindingShell_at : bindingShell.At bindRegs bindMemory where
  pageZero := pageZeroUnmapped_ofBytes (by decide) (by decide +kernel)
  intentPackage := ⟨0, by decide +kernel, rfl⟩
  intentAction := ⟨0, by decide +kernel, rfl⟩
  component := ⟨0x1040, by decide +kernel,
    ⟨0x1100, by decide +kernel, ⟨by decide +kernel, by decide +kernel, by decide +kernel⟩, by decide +kernel⟩,
    ⟨0x1200, by decide +kernel, ⟨by decide +kernel, by decide +kernel, by decide +kernel⟩, by decide +kernel⟩⟩
  flags := by decide +kernel
  callingPackage :=
    ⟨0x1300, by decide +kernel, ⟨by decide +kernel, by decide +kernel, by decide +kernel⟩, by decide +kernel⟩

def bindFiring (slot : Option BindServiceLocked) : BindFiring :=
  ⟨bindingShell, bindRegs, bindMemory, bindingShell_at, slot⟩

def emptyBinding : BindServiceLocked := ⟨.zeros _, .zeros _, .zeros _, .zeros _, 0, .zeros _⟩

/-- The shell binds a service, for the second time without room for a record; its name is not looked up as that of
    its package here. -/
theorem binds_reported_of_shell :
    (after ((pollLoopGeneric bindServiceLockedHandler (servedEnv true shellAndApp) someTask
      bindServiceLockedHandler.mapPath 1000 ((recordedBy BindFiring.records
        [⟨0, [bindFiring (some emptyBinding), bindFiring none]⟩]).map Turn.round)).run { handler := () })).atoms =
      [.bindServiceLockedWithBalFlagsUids (-1) 20] :=
  (binds_reported (servedEnv_servedBy true shellAndApp) someTask (by decide)).1.trans (by decide +kernel)

/-! ### Components that are disabled -/

/-- What a record says of a component whose setting is changed. -/
structure Setting where
  packageName : String
  className : String
  newState : Int32
  callingPackageName : String

def Setting.reports (isUserBuild : Bool) (pm : PackageManager) (c : Setting) : List Atom :=
  let isLauncherActivity := UprobeStatsServiceImpl.isLauncherActivity pm c.packageName c.className true
  if c.newState < componentEnabledStateDisabled then []
  else (if isUserBuild then [] else [.setComponentEnabledSetting c.packageName c.className c.newState
      c.callingPackageName isLauncherActivity]) ++
    if isLauncherActivity then
      [.disabledLauncherActivityUids (UprobeStatsServiceImpl.getUidForPackage pm (uidName c.callingPackageName))
        (UprobeStatsServiceImpl.getUidForPackage pm c.packageName)]
    else []

def ComponentEnabledSetting.decode (data : ComponentEnabledSetting) : Except Error Setting := do
  let packageName ← bytesAsStr data.packageName
  let className ← bytesAsStr data.className
  let callingPackageName ← bytesAsStr data.callingPackageName
  .ok ⟨packageName, className, data.newState, callingPackageName⟩

namespace ComponentEnabledSettingHandler

def reportSetting (env : Env) (c : Setting) : Handling Unit ComponentEnabledSetting PUnit :=
  report env c.packageName c.className c.newState c.callingPackageName

theorem onItem_eq (env : Env) (task : ResolvedTask) (data : ComponentEnabledSetting) :
    onItem env task data = lift data.decode >>= reportSetting env := by
  simp only [onItem, ComponentEnabledSetting.decode, lift_andThen, bind_assoc]
  rfl

theorem yields_reportIfLauncher {env : Env} {pm : PackageManager} (h : env.ServedBy pm) (c : Setting)
    (isLauncherActivity : Bool) :
    Yields (if isLauncherActivity then reportLauncherActivity env c.packageName c.callingPackageName else pure ⟨⟩) ⟨⟩
      (if isLauncherActivity then
        [.getUidForPackage (uidName c.callingPackageName), .getUidForPackage c.packageName,
          .statsWrite (.disabledLauncherActivityUids
            (UprobeStatsServiceImpl.getUidForPackage pm (uidName c.callingPackageName))
            (UprobeStatsServiceImpl.getUidForPackage pm c.packageName))]
      else []) := by
  split
  · exact (h.yields_getUidForPackage _).bind ((h.yields_getUidForPackage _).bind (h.yields_statsWrite _))
  · exact .pure _

theorem yields_report {env : Env} {pm : PackageManager} (h : env.ServedBy pm) (c : Setting) :
    ∃ calls, Yields (reportSetting env c) ⟨⟩ calls ∧
      calls.filterMap Call.atom? = c.reports env.isUserBuild pm := by
  have hchecked {x : Bool → Handling Unit ComponentEnabledSetting PUnit} {calls : List Call}
      (hx : Yields (x (UprobeStatsServiceImpl.isLauncherActivity pm c.packageName c.className true)) ⟨⟩ calls) :
      Yields (uprobestatsService env >>= fun _ => isLauncherActivity env c.packageName c.className true >>= x) ⟨⟩
        ([.service] ++ ([.isLauncherActivity c.packageName c.className true] ++ calls)) :=
    h.yields_service.bind ((h.yields_isLauncherActivity c.packageName c.className true).bind hx)
  rw [reportSetting, report, Setting.reports]
  by_cases hstate : c.newState < componentEnabledStateDisabled
  · simp only [if_pos hstate]
    exact ⟨_, hchecked (.pure _), rfl⟩
  · simp only [if_neg hstate]
    refine ⟨_, hchecked ((h.yields_writeUnlessUserBuild _).bind (yields_reportIfLauncher h c _)), ?_⟩
    cases env.isUserBuild <;>
      cases UprobeStatsServiceImpl.isLauncherActivity pm c.packageName c.className true <;> rfl

theorem logs {env : Env} {pm : PackageManager} (h : env.ServedBy pm) :
    componentEnabledSettingHandler.Logs env Session.atoms (fun _ data => data.decode.isOk)
      fun _ data => data.decode.toOption.toList.flatMap (·.reports env.isUserBuild pm) :=
  logs_of_decode (onItem_eq env) rfl (yields_report h)

end ComponentEnabledSettingHandler

/-- A call of `setComponentEnabledSetting`, with what it is given. -/
structure SettingCall where
  component : Option (String × String)
  newState : Int32
  callingPackage : Option String

/-- A thread is in the call: its registers hold or refer to what the call is given. -/
structure SettingCall.At (c : SettingCall) (ctx : PtRegs) (mem : Memory) : Prop where
  pageZero : mem.PageZeroUnmapped
  component : mem.MayHoldComponent (ctx.regs 2) c.component
  newState : (ctx.regs 3).toUInt32.toInt32 = c.newState
  callingPackage : mem.MayHold (ctx.regs 6) c.callingPackage

def SettingCall.setting (c : SettingCall) : Setting where
  packageName := keptOf 64 (c.component.map (·.1))
  className := keptOf 64 (c.component.map (·.2))
  newState := c.newState
  callingPackageName := keptOf 64 c.callingPackage

structure SettingFiring where
  call : SettingCall
  ctx : PtRegs
  mem : Memory
  at_call : call.At ctx mem
  slot : Option ComponentEnabledSetting

namespace SettingFiring

def records (f : SettingFiring) : List ComponentEnabledSetting := (setComponentEnabledSetting f.ctx f.mem f.slot).toList

theorem records_of_full (f : SettingFiring) (h : f.slot.isSome = false) : f.records = [] := toList_of_full rfl h

theorem records_of_reserved (f : SettingFiring) (h : f.slot.isSome = true) :
    ∃ r, f.records = [r] ∧ r.decode = .ok f.call.setting := by
  obtain ⟨output, hslot⟩ := Option.isSome_iff_exists.mp h
  have hzero := f.at_call.pageZero
  have hpos : 0 < (64 : UInt32).toNat := by decide
  have hle : (64 : UInt32).toNat ≤ maxStringLength := by decide
  obtain ⟨hpackage, hclass⟩ := bytesAsStr_of_mayHoldComponent hzero f.at_call.component hpos hle
    output.packageName output.className
  refine ⟨_, by rw [records, hslot]; rfl, ?_⟩
  simp only [ComponentEnabledSetting.decode, hpackage, hclass, f.at_call.newState,
    bytesAsStr_of_mayHold hzero f.at_call.callingPackage hpos hle]
  rfl

end SettingFiring

/-- On a device with its service the monitor does not fail at calls that are given ASCII strings or null, and reports
    each that found room and sets a disabled state: its names unless the build is a user build, and of a launcher
    activity the uids of who disables it and of its package. -/
theorem disablings_reported {env : Env} {pm : PackageManager} (henv : env.ServedBy pm) (task : ResolvedTask)
    {duration : Nat} {turns : List (Turn SettingFiring)}
    (hfits : ∀ x ∈ beforeExpiry duration turns, duration - x.elapsed < 2 ^ 31) :
    let h := componentEnabledSettingHandler
    let firings := ((beforeExpiry duration turns).flatMap (·.items)).filter (·.slot.isSome)
    let written := recordedBy SettingFiring.records turns
    let result := (pollLoopGeneric h env task h.mapPath duration (written.map Turn.round)).run { handler := () }
    (after result).atoms = firings.flatMap (fun f => f.call.setting.reports env.isUserBuild pm) ∧ isOk result = true :=
  reported_of_decode (ComponentEnabledSettingHandler.logs henv) task SettingFiring.records_of_full
    SettingFiring.records_of_reserved hfits

def disablingApp : SettingCall := ⟨some ("p", "c"), 2, some "shell"⟩

theorem disablingApp_at : disablingApp.At disabling (componentMemory "p" "c" "shell") where
  pageZero := pageZeroUnmapped_ofBytes (by decide) (by decide +kernel)
  component :=
    ⟨⟨0x1010, by decide +kernel, ⟨by decide +kernel, by decide +kernel, by decide +kernel⟩, by decide +kernel⟩,
      ⟨0x1110, by decide +kernel, ⟨by decide +kernel, by decide +kernel, by decide +kernel⟩, by decide +kernel⟩⟩
  newState := by decide +kernel
  callingPackage := ⟨⟨by decide +kernel, by decide +kernel, by decide +kernel⟩, by decide +kernel⟩

def settingFiring (slot : Option ComponentEnabledSetting) : SettingFiring :=
  ⟨disablingApp, disabling, componentMemory "p" "c" "shell", disablingApp_at, slot⟩

/-- The shell disables the launcher activity, for the second time without room for a record. -/
theorem disablings_reported_of_shell :
    (after ((pollLoopGeneric componentEnabledSettingHandler (servedEnv false shellAndApp) someTask
      componentEnabledSettingHandler.mapPath 1000 ((recordedBy SettingFiring.records
        [⟨0, [settingFiring (some emptySetting), settingFiring none]⟩]).map Turn.round)).run { handler := () })).atoms =
      [.setComponentEnabledSetting "p" "c" 2 "shell" true, .disabledLauncherActivityUids 10 20] :=
  (disablings_reported (servedEnv_servedBy false shellAndApp) someTask (by decide)).1.trans (by decide +kernel)

end UprobeStats
