import UprobeStats.BpfFns
import UprobeStats.Handler

/-! Disruptive apps: the programs of `DisruptiveApp.c` and the handlers of `disruptive_app.rs`. -/

namespace UprobeStats
open Rust Effect

/-! ### The programs -/

def kIntentPackageOffset : UInt64 := 48
def kIntentComponentNameOffset : UInt64 := 20
def kIntentActionOffset : UInt64 := 8
def kComponentNameClassOffset : UInt64 := 8
def kComponentNamePackageOffset : UInt64 := 12
def kCallingPackageStackFrameOffset : UInt64 := 60

def bindServiceLocked (ctx : PtRegs) (mem : Memory) (slot : Option BindServiceLocked) :
    Option BindServiceLocked := do
  let output ← slot
  let intentPtr := ctx.regs 4
  let intentPackageNamePtr := readRef mem (intentPtr + kIntentPackageOffset)
  let intentActionPtr := readRef mem (intentPtr + kIntentActionOffset)
  let componentNamePtr := readRef mem (intentPtr + kIntentComponentNameOffset)
  let intentComponentNamePackagePtr := readRef mem (componentNamePtr + kComponentNamePackageOffset)
  let intentComponentNameClassPtr := readRef mem (componentNamePtr + kComponentNameClassOffset)
  some {
    intentPackage := recordString mem intentPackageNamePtr 128 output.intentPackage
    intentAction := recordString mem intentActionPtr 128 output.intentAction
    intentComponentNamePackage :=
      recordString mem intentComponentNamePackagePtr 128 output.intentComponentNamePackage
    intentComponentNameClass := recordString mem intentComponentNameClassPtr 128 output.intentComponentNameClass
    bindFlags := (ctx.regs 7).toInt64
    callingPackage := recordStringArgFromSp mem ctx 128 kCallingPackageStackFrameOffset output.callingPackage }

def setComponentEnabledSetting (ctx : PtRegs) (mem : Memory) (slot : Option ComponentEnabledSetting) :
    Option ComponentEnabledSetting := do
  let output ← slot
  let componentNamePtr := ctx.regs 2
  let className := readRef mem (componentNamePtr + kComponentNameClassOffset)
  let packageName := readRef mem (componentNamePtr + kComponentNamePackageOffset)
  let callingPackageName := ctx.regs 6
  some {
    className := recordString mem className 64 output.className
    packageName := recordString mem packageName 64 output.packageName
    callingPackageName := recordString mem callingPackageName 64 output.callingPackageName
    newState := (ctx.regs 3).toUInt32.toInt32 }

/-! ### The handlers -/

/-- Atoms with the names of packages are not written on a user build. -/
def writeUnlessUserBuild {T : Type} (env : Env) (atom : Atom) : Handling Unit T Unit :=
  if env.isUserBuild then pure () else statsWrite env atom

theorem sameHanded_writeUnlessUserBuild {T : Type} (env : Env) (atom : Atom) :
    Within (SameHanded (H := Unit) (T := T)) (writeUnlessUserBuild env atom) := by
  unfold writeUnlessUserBuild
  split
  · exact .pure _
  · exact sameHanded_call _ _

def componentEnabledStateDisabled : Int32 := 2

namespace ComponentEnabledSettingHandler

/-- The uids of a launcher activity that was disabled, and of who disabled it. -/
def reportLauncherActivity (env : Env) (packageName callingPackageName : String) :
    Handling Unit ComponentEnabledSetting PUnit := do
  -- special case for shell, needs com.android prepended
  let callingUid ← getUidForPackage env (if callingPackageName = "shell" then "com.android.shell" else callingPackageName)
  let disabledActivityUid ← getUidForPackage env packageName
  statsWrite env (.disabledLauncherActivityUids callingUid disabledActivityUid)

def report (env : Env) (packageName className : String) (newState : Int32) (callingPackageName : String) :
    Handling Unit ComponentEnabledSetting PUnit := do
  uprobestatsService env
  let isLauncherActivity ← isLauncherActivity env packageName className true
  if newState < componentEnabledStateDisabled then pure ⟨⟩
  else do
    writeUnlessUserBuild env
      (.setComponentEnabledSetting packageName className newState callingPackageName isLauncherActivity)
    if isLauncherActivity then reportLauncherActivity env packageName callingPackageName else pure ⟨⟩

def onItem (env : Env) (_task : ResolvedTask) (data : ComponentEnabledSetting) :
    Handling Unit ComponentEnabledSetting PUnit := do
  let packageName ← lift (bytesAsStr data.packageName)
  let className ← lift (bytesAsStr data.className)
  let callingPackageName ← lift (bytesAsStr data.callingPackageName)
  report env packageName className data.newState callingPackageName

theorem sameHanded_onItem (env : Env) (task : ResolvedTask) (data : ComponentEnabledSetting) :
    Within SameHanded (onItem env task data) := by
  refine (Within.lift _).bind fun _ => (Within.lift _).bind fun _ => (Within.lift _).bind fun _ => ?_
  refine (sameHanded_call _ _).bind fun _ => (sameHanded_call _ _).bind fun _ => ?_
  split
  · exact .pure _
  · refine (sameHanded_writeUnlessUserBuild _ _).bind fun _ => ?_
    split
    · exact (sameHanded_call _ _).bind fun _ => (sameHanded_call _ _).bind fun _ => sameHanded_call _ _
    · exact .pure _

end ComponentEnabledSettingHandler

def componentEnabledSettingHandler : Handler Unit ComponentEnabledSetting where
  mapPath := "/sys/fs/bpf/uprobestats/map_DisruptiveApp_ComponentEnabledSetting_output_buf"
  default := ()
  onItem := ComponentEnabledSettingHandler.onItem
  sameHanded_onItem := ComponentEnabledSettingHandler.sameHanded_onItem

def bindAllowBackgroundActivityStarts : Int64 := 0x00100000

namespace BindServiceLockedHandler

def report (env : Env) (flags : Int64) (intentPackage intentAction intentComponentNamePackage
    intentComponentNameClass callingPackage : String) : Handling Unit BindServiceLocked PUnit := do
  if flags &&& bindAllowBackgroundActivityStarts = 0 then pure ⟨⟩
  else do
    writeUnlessUserBuild env (.bindServiceLockedWithBalFlags intentPackage flags callingPackage intentAction
      intentComponentNamePackage intentComponentNameClass)
    uprobestatsService env
    let binderUid ← getUidForPackage env callingPackage
    let bindeeUid ← getUidForPackage env (if intentPackage = "" then intentComponentNamePackage else intentPackage)
    statsWrite env (.bindServiceLockedWithBalFlagsUids binderUid bindeeUid)

def onItem (env : Env) (_task : ResolvedTask) (data : BindServiceLocked) :
    Handling Unit BindServiceLocked PUnit := do
  let intentPackage ← lift (bytesAsStr data.intentPackage)
  let intentAction ← lift (bytesAsStr data.intentAction)
  let intentComponentNamePackage ← lift (bytesAsStr data.intentComponentNamePackage)
  let intentComponentNameClass ← lift (bytesAsStr data.intentComponentNameClass)
  let callingPackage ← lift (bytesAsStr data.callingPackage)
  report env data.bindFlags intentPackage intentAction intentComponentNamePackage intentComponentNameClass
    callingPackage

theorem sameHanded_onItem (env : Env) (task : ResolvedTask) (data : BindServiceLocked) :
    Within SameHanded (onItem env task data) := by
  refine (Within.lift _).bind fun _ => (Within.lift _).bind fun _ => (Within.lift _).bind fun _ => ?_
  refine (Within.lift _).bind fun _ => (Within.lift _).bind fun _ => ?_
  unfold report
  split
  · exact .pure _
  · refine (sameHanded_writeUnlessUserBuild _ _).bind fun _ => (sameHanded_call _ _).bind fun _ => ?_
    exact (sameHanded_call _ _).bind fun _ => (sameHanded_call _ _).bind fun _ => sameHanded_call _ _

end BindServiceLockedHandler

def bindServiceLockedHandler : Handler Unit BindServiceLocked where
  mapPath := "/sys/fs/bpf/uprobestats/map_DisruptiveApp_BindServiceLocked_output_buf"
  default := ()
  onItem := BindServiceLockedHandler.onItem
  sameHanded_onItem := BindServiceLockedHandler.sameHanded_onItem

end UprobeStats
