import UprobeStats.Guardrail
import UprobeStats.Device

/-! The guardrail of the C++ program: `Guardrail.cpp`. A field that a message does not have reads as its
    default, which is the empty string. -/

namespace UprobeStats.Cxx
open Text

/-- `GetProperty`, which takes a property that is empty for one that is not set. -/
def getProperty (property : Option String) (defaultValue : String) : String :=
  match property with
  | some val => if val = "" then defaultValue else val
  | none => defaultValue

/-- The build type that `main` passes on. -/
def buildType (dev : Device) : String := getProperty (dev.buildType.toOption.bind id) "unknown"

def kAllowedMethodPrefixes : List String := [
  "com.android.server.am.ActivityManagerService$LocalService.updateDeviceIdleTempAllowlist",
  "com.android.server.am.CachedAppOptimizer",
  "com.android.server.am.OomAdjuster",
  "com.android.server.am.OomAdjusterModernImpl"]

def split (s : String) (delimiter : Char) : List String := (s.toList.splitOn delimiter).map String.ofList

def getFullMethodName (probeConfig : ProbeConfig) (executableMethodFileOffsetsApiEnabled : Bool) : String :=
  if executableMethodFileOffsetsApiEnabled && probeConfig.fullyQualifiedClassName.isSome then
    probeConfig.fullyQualifiedClassName.getD "" ++ "." ++ probeConfig.methodName.getD ""
  else
    let components := split (probeConfig.methodSignature.getD "") ' '
    if components.length < 2 then "" else components.getD 1 ""

def isAllowedName (allowedMethodPrefixes : List String) (fullMethodName : String) : Bool :=
  allowedMethodPrefixes.any fun allowedPrefix =>
    startsWith fullMethodName (allowedPrefix ++ ".") || startsWith fullMethodName (allowedPrefix ++ "$") ||
      startsWith fullMethodName (allowedPrefix ++ "(") || fullMethodName = allowedPrefix

/-- The two loops, over an allow list that the program fixes as `kAllowedMethodPrefixes`. -/
def isAllowed (allowedMethodPrefixes : List String) (config : UprobestatsConfig) (buildType : String)
    (executableMethodFileOffsetsApiEnabled : Bool) : Bool :=
  if buildType ≠ "user" then true
  else config.tasks.all fun task => task.probeConfigs.all fun probeConfig =>
    isAllowedName allowedMethodPrefixes (getFullMethodName probeConfig executableMethodFileOffsetsApiEnabled)

end UprobeStats.Cxx
