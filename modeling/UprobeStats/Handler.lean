import UprobeStats.Config
import UprobeStats.Lib.Effect

/-! The handlers of ring buffer records, what they call, and the loop that polls for them:
    `bpf_map/mod.rs`. -/

namespace UprobeStats
open Rust Effect

/-! ### Calls -/

inductive PixelStorageType where
  | wrappedPixelRef
  | heap
  | ashmem
  | hardware
  | unspecified
  deriving DecidableEq, Repr

inductive Atom where
  | bitmapAllocated (uid width height : Int32)
  | bitmapAllocationSnapshot (uid width height : Int32) (pixelStorageType : PixelStorageType) (snapshotId : Int64)
      (atMaxSize : Bool) (activityName : String)
  | setComponentEnabledSetting (packageName className : String) (newState : Int32) (callingPackageName : String)
      (isLauncherActivity : Bool)
  | disabledLauncherActivityUids (callingUid disabledActivityUid : Int32)
  | bindServiceLockedWithBalFlags (intentPackage : String) (flags : Int64)
      (callingPackage intentAction intentComponentNamePackage intentComponentNameClass : String)
  | bindServiceLockedWithBalFlagsUids (binderUid bindeeUid : Int32)
  deriving DecidableEq

inductive StatsValue where
  | bool (value : Bool)
  | int32 (value : Int32)
  | int64 (value : Int64)
  deriving DecidableEq

/-- An `AStatsEvent` as it is written: the id of its atom and the values put into it. -/
structure StatsEvent where
  atomId : UInt32
  values : List StatsValue
  deriving DecidableEq

inductive Call where
  | statsWrite (atom : Atom)
  | statsEvent (event : StatsEvent)
  | service
  | isLauncherActivity (packageName className : String) (includeDisabled : Bool)
  | getUidForPackage (packageName : String)
  | pollRingBuf (mapPath : String) (timeoutMs : Int32)
  deriving DecidableEq

/-- What the device answers, each time on what was called before. -/
structure Env where
  isUserBuild : Bool
  statsWrite : List Call → Atom → Except Error Unit
  service : List Call → Except Error Unit
  isLauncherActivity : List Call → String → String → Bool → Except Error Bool
  getUidForPackage : List Call → String → Except Error Int32
  snapshotId : List Call → Int64

/-! ### Handlers -/

/-- A handler at work: its own fields, the calls made so far and the records handed to it. -/
structure Session (H T : Type) where
  handler : H
  calls : List Call := []
  handed : List T := []

abbrev Handling (H T : Type) := EStateM Error (Session H T)

section Calls
variable {H T α : Type}

def call (c : Call) (answer : List Call → Except Error α) : Handling H T α := do
  let s ← get
  set { s with calls := s.calls ++ [c] }
  lift (answer s.calls)

def statsWrite (env : Env) (atom : Atom) : Handling H T Unit := call (.statsWrite atom) (env.statsWrite · atom)

/-- `AStatsEvent::write`, which returns nothing. -/
def writeEvent (event : StatsEvent) : Handling H T Unit := call (.statsEvent event) fun _ => .ok ()

def uprobestatsService (env : Env) : Handling H T Unit := call .service env.service

def isLauncherActivity (env : Env) (packageName className : String) (includeDisabled : Bool) : Handling H T Bool :=
  call (.isLauncherActivity packageName className includeDisabled)
    (env.isLauncherActivity · packageName className includeDisabled)

def getUidForPackage (env : Env) (packageName : String) : Handling H T Int32 :=
  call (.getUidForPackage packageName) (env.getUidForPackage · packageName)

def modifyHandler (f : H → H) : Handling H T PUnit := modify fun s => { s with handler := f s.handler }

end Calls

/-! ### What a handler leaves alone -/

def SameHanded {H T : Type} (s t : Session H T) : Prop := t.handed = s.handed

section SameHanded
variable {H T α : Type}

instance : Std.Refl (SameHanded (H := H) (T := T)) := ⟨fun _ => rfl⟩

instance : IsTrans (Session H T) SameHanded := ⟨fun _ _ _ hst htu => Eq.trans htu hst⟩

theorem sameHanded_call (c : Call) (answer : List Call → Except Error α) :
    Within (SameHanded (H := H) (T := T)) (call c answer) := by
  intro s
  unfold call
  simp only [EStateM.run_bind, EStateM.run_get, EStateM.run_set, run_lift]
  cases answer s.calls <;> rfl

theorem sameHanded_modifyHandler (f : H → H) : Within (SameHanded (H := H) (T := T)) (modifyHandler f) :=
  .modify fun _ => rfl

end SameHanded

/-- `trait Handler`. A handler has no part in what is handed to it. -/
structure Handler (H T : Type) where
  mapPath : String
  default : H
  onItem : Env → ResolvedTask → T → Handling H T PUnit
  onFinished : Env → Handling H T PUnit := fun _ => pure ⟨⟩
  sameHanded_onItem : ∀ env task item, Within SameHanded (onItem env task item)
  sameHanded_onFinished : ∀ env, Within SameHanded (onFinished env) := by exact fun _ => Within.pure _

/-! ### The poll loop -/

/-- Check the time remaining: `none` if expired. -/
def remainingMillis (duration elapsed : Nat) : Option Nat :=
  if elapsed ≤ duration then some (duration - elapsed) else none

/-- One turn of the loop: the clock reading that it starts with, and what its poll returns. -/
structure Round (T : Type) where
  elapsed : Nat
  polled : Except Error (List T)

section Loop
variable {H T : Type} (h : Handler H T) (env : Env) (task : ResolvedTask)

def handItem (item : T) : Handling H T PUnit := do
  modify fun s => { s with handed := s.handed ++ [item] }
  h.onItem env task item

/-- The loop of `poll_loop_generic` over the turns that the device gives it; `false` when they end before
    the timer has expired. -/
def pollLoop (mapPath : String) (duration : Nat) : List (Round T) → Handling H T Bool
  | [] => pure false
  | round :: rounds =>
    match remainingMillis duration round.elapsed with
    | none => do
      h.onFinished env
      pure true
    | some remaining => do
      let remaining ← lift (tryI32 remaining)
      let result ← call (.pollRingBuf mapPath remaining) fun _ => round.polled
      result.forM (handItem h env task)
      pollLoop mapPath duration rounds

def pollLoopGeneric (mapPath : String) (duration : Nat) (rounds : List (Round T)) : Handling H T Bool :=
  if mapPath ≠ h.mapPath then
    throw (.message s!"map_path mismatch: {mapPath} != {h.mapPath}")
  else do
    modifyHandler fun _ => h.default
    pollLoop h env task mapPath duration rounds

end Loop

end UprobeStats
