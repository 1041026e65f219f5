import UprobeStats.Config
import UprobeStats.Lib.Text

/-! The allow list of code that can be instrumented on user devices: `guardrail.rs`. -/

namespace UprobeStats
open Rust Text

def allowedMethodPrefixes : List String := [
  "com.android.server.am.ActivityManagerService$LocalService.updateDeviceIdleTempAllowlist",
  "com.android.server.am.CachedAppOptimizer",
  "com.android.server.am.OomAdjuster",
  "com.android.server.am.OomAdjusterModernImpl",
  "com.android.server.pm.PackageManagerService$IPackageManagerImpl.setComponentEnabledSetting",
  "com.android.server.am.ActiveServices.bindServiceLocked"]

def getFullMethodName (probeConfig : ProbeConfig) (offsetsApiEnabled : Bool) : Except Error String :=
  if offsetsApiEnabled then do
    let fqcn ← okOr probeConfig.fullyQualifiedClassName "Fully qualified class name is empty"
    let methodName ← okOr probeConfig.methodName "Method name is empty"
    .ok (fqcn ++ "." ++ methodName)
  else do
    let methodSignature ← okOr probeConfig.methodSignature "Method signature is empty"
    let parts := (methodSignature.toList.splitOn ' ').map String.ofList
    okOr parts[1]? "Method signature is invalid"

/-- Some prefix of the allow list is the name, or is followed by what may follow it. -/
def isAllowedName (fullMethodName : String) : Bool :=
  allowedMethodPrefixes.any fun entry =>
    fullMethodName = entry || startsWith fullMethodName (entry ++ "(") || startsWith fullMethodName (entry ++ ".") ||
      startsWith fullMethodName (entry ++ "$")

/-- The loop over the probes of all tasks: the first probe that is not allowed, or has no name, ends it. -/
def areAllowed (offsetsApiEnabled : Bool) : List ProbeConfig → Except Error Bool
  | [] => .ok true
  | probe :: probes => do
    let fullMethodName ← getFullMethodName probe offsetsApiEnabled
    if isAllowedName fullMethodName then areAllowed offsetsApiEnabled probes else .ok false

def isAllowed (config : UprobestatsConfig) (isUserBuild offsetsApiEnabled : Bool) : Except Error Bool :=
  if !isUserBuild then .ok true
  else areAllowed offsetsApiEnabled (config.tasks.flatMap (·.probeConfigs))

end UprobeStats
