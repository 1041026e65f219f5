import UprobeStats.Handler

/-! The service that the handlers ask about packages: `UprobeStatsServiceImpl.java`, over the package manager of the
    device. -/

namespace UprobeStats

structure Intent where
  action : String
  category : String
  package : String
  deriving DecidableEq

def actionMain : String := "android.intent.action.MAIN"
def categoryLauncher : String := "android.intent.category.LAUNCHER"
def matchDisabledComponents : UInt32 := 0x200

/-- The names of the activities that an intent finds, and the uid of a package unless no such package is there. -/
structure PackageManager where
  queryIntentActivities : Intent → UInt32 → List String
  getPackageUid : String → UInt32 → Option Int32

namespace UprobeStatsServiceImpl

def isLauncherActivity (pm : PackageManager) (packageName className : String) (matchDisabled : Bool) : Bool :=
  let intent : Intent := ⟨actionMain, categoryLauncher, packageName⟩
  let flags := if matchDisabled then matchDisabledComponents else 0
  (pm.queryIntentActivities intent flags).any fun name => name = className

def getUidForPackage (pm : PackageManager) (packageName : String) : Int32 :=
  match pm.getPackageUid packageName 0 with
  | some uid => uid
  | none => -1

end UprobeStatsServiceImpl

/-- A device that has published its service over these packages, and whose statsd takes every atom. -/
structure Env.ServedBy (env : Env) (pm : PackageManager) : Prop where
  service : ∀ calls, env.service calls = .ok ()
  isLauncherActivity : ∀ calls packageName className matchDisabled,
    env.isLauncherActivity calls packageName className matchDisabled =
      .ok (UprobeStatsServiceImpl.isLauncherActivity pm packageName className matchDisabled)
  getUidForPackage : ∀ calls packageName,
    env.getUidForPackage calls packageName = .ok (UprobeStatsServiceImpl.getUidForPackage pm packageName)
  statsWrite : ∀ calls atom, env.statsWrite calls atom = .ok ()

end UprobeStats
