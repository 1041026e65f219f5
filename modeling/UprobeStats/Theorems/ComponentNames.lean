import UprobeStats.Theorems.JavaString
import UprobeStats.Theorems.PollLoop
import UprobeStats.DisruptiveApp

/-! The names of a component on their way to the launcher check. The program gives 64 bytes to each name, where the
    record has room for 128, and the handler asks about what is left of them. -/

namespace UprobeStats
open Rust Effect Text

/-! ### The calls of a handler -/

/-- Wherever it stops, the program has made calls with `P`. -/
def Makes {H T α : Type} (P : List Call → Prop) (x : Handling H T α) : Prop :=
  ∀ s, ∃ made, (after (x.run s)).calls = s.calls ++ made ∧ P made

namespace Makes
variable {H T α β : Type} {P Q : List Call → Prop} {c : Call} {answer : List Call → Except Error α}

theorem pure (a : α) (h : P []) : Makes P (pure a : Handling H T α) := fun s => ⟨[], by simp, h⟩

theorem call (h : P [c]) : Makes P (call c answer : Handling H T α) := fun s => ⟨[c], by rw [after_call], h⟩

theorem call_bind {f : α → Handling H T β} (hstop : Q [c]) (hf : ∀ a, Makes P (f a))
    (hgo : ∀ made, P made → Q (c :: made)) :
    Makes Q (UprobeStats.call c answer >>= f) := by
  intro s
  have hafter := after_call (H := H) (T := T) c answer s
  cases hrun : (UprobeStats.call c answer : Handling H T α).run s with
  | error e t =>
    rw [hrun, after_error] at hafter
    exact ⟨[c], by rw [EStateM.run_bind, hrun, after_error, hafter], hstop⟩
  | ok a t =>
    rw [hrun, after_ok] at hafter
    obtain ⟨made, hmade, hp⟩ := hf a t
    refine ⟨c :: made, ?_, hgo made hp⟩
    rw [EStateM.run_bind, hrun]
    dsimp only
    rw [hmade, hafter, List.append_assoc, List.singleton_append]

end Makes

def Call.uidPackage? : Call → Option String
  | .getUidForPackage packageName => some packageName
  | _ => none

/-- The name that the uid of a calling package is looked up under. -/
def uidName (callingPackageName : String) : String :=
  if callingPackageName = "shell" then "com.android.shell" else callingPackageName

/-- Calls that look up these uids, and after the launcher check. -/
def LookUp (packages : List String) (made : List Call) : Prop :=
  (∀ p c b, Call.isLauncherActivity p c b ∉ made) ∧ made.filterMap Call.uidPackage? <+: packages

namespace LookUp
variable {packages : List String} {made : List Call}

theorem nil : LookUp packages [] := ⟨by simp, by simp⟩

theorem uid (h : LookUp packages made) (p : String) : LookUp (p :: packages) (.getUidForPackage p :: made) :=
  ⟨by simpa using h.1, by rw [List.filterMap_cons_some (f := Call.uidPackage?) rfl, List.prefix_cons_inj]; exact h.2⟩

theorem stats (h : LookUp packages made) (atom : Atom) : LookUp packages (.statsWrite atom :: made) :=
  ⟨by simpa using h.1, by rw [List.filterMap_cons_none rfl]; exact h.2⟩

end LookUp

/-- The launcher check is for this activity, and made unless the service is not there. -/
def Checks (service : Prop) (packageName className : String) (packages : List String) (made : List Call) : Prop :=
  (service → Call.isLauncherActivity packageName className true ∈ made) ∧
    (∀ p c b, Call.isLauncherActivity p c b ∈ made → p = packageName ∧ c = className) ∧
    made.filterMap Call.uidPackage? <+: packages

theorem Checks.check {packageName className : String} {packages : List String} {made : List Call}
    (h : LookUp packages made) :
    Checks True packageName className packages (.isLauncherActivity packageName className true :: made) := by
  refine ⟨fun _ => List.mem_cons_self .., fun p c b hmem => ?_, ?_⟩
  · rcases List.mem_cons.mp hmem with heq | hmem
    · cases heq
      exact ⟨rfl, rfl⟩
    · exact absurd hmem (h.1 p c b)
  · rw [List.filterMap_cons_none rfl]
    exact h.2

namespace ComponentEnabledSettingHandler
variable {env : Env} {packageName className callingPackageName : String} {newState : Int32}

theorem makes_reportLauncherActivity : Makes (LookUp [uidName callingPackageName, packageName])
    (reportLauncherActivity env packageName callingPackageName) := by
  have hstats : ∀ atom, Makes (LookUp []) (statsWrite env atom : Handling Unit ComponentEnabledSetting Unit) :=
    fun atom => .call (.stats .nil atom)
  have hsecond : ∀ callingUid, Makes (LookUp [packageName]) (do
      let disabledActivityUid ← getUidForPackage env packageName
      statsWrite env (.disabledLauncherActivityUids callingUid disabledActivityUid) :
        Handling Unit ComponentEnabledSetting PUnit) :=
    fun callingUid => .call_bind (.uid .nil _) (fun _ => hstats _) fun _ h => h.uid _
  exact .call_bind (.uid .nil _) hsecond fun _ h => h.uid _

/-- What follows the launcher check. -/
theorem makes_afterCheck (atom : Atom) (isLauncher : Bool) : Makes (LookUp [uidName callingPackageName, packageName]) (do
    writeUnlessUserBuild env atom
    if isLauncher then reportLauncherActivity env packageName callingPackageName else pure ⟨⟩ :
      Handling Unit ComponentEnabledSetting PUnit) := by
  have hrest : Makes (LookUp [uidName callingPackageName, packageName])
      (if isLauncher then reportLauncherActivity env packageName callingPackageName else pure ⟨⟩) := by
    split
    · exact makes_reportLauncherActivity
    · exact .pure _ .nil
  unfold writeUnlessUserBuild
  split
  · exact hrest
  · exact .call_bind (.stats .nil _) (fun _ => hrest) fun _ h => h.stats _

theorem makes_check : Makes (Checks True packageName className
    (if newState < componentEnabledStateDisabled then [] else [uidName callingPackageName, packageName])) (do
    let isLauncher ← isLauncherActivity env packageName className true
    if newState < componentEnabledStateDisabled then pure ⟨⟩
    else do
      writeUnlessUserBuild env
        (.setComponentEnabledSetting packageName className newState callingPackageName isLauncher)
      if isLauncher then reportLauncherActivity env packageName callingPackageName else pure ⟨⟩ :
        Handling Unit ComponentEnabledSetting PUnit) := by
  have hrest : ∀ isLauncher, Makes
      (LookUp (if newState < componentEnabledStateDisabled then [] else [uidName callingPackageName, packageName]))
      (if newState < componentEnabledStateDisabled then pure ⟨⟩
      else do
        writeUnlessUserBuild env
          (.setComponentEnabledSetting packageName className newState callingPackageName isLauncher)
        if isLauncher then reportLauncherActivity env packageName callingPackageName else pure ⟨⟩) := by
    intro isLauncher
    split
    · exact .pure _ .nil
    · exact makes_afterCheck _ _
  exact .call_bind (.check .nil) hrest fun _ h => .check h

end ComponentEnabledSettingHandler

/-! ### The record -/

/-- The handler asks about these names, when it asks. -/
def AsksAbout (packageName className callingPackageName : String) (r : ComponentEnabledSetting) : Prop :=
  ∀ (env : Env) (task : ResolvedTask) (s : Session Unit ComponentEnabledSetting),
    ∃ made, (after ((ComponentEnabledSettingHandler.onItem env task r).run s)).calls = s.calls ++ made ∧
      Checks (env.service s.calls = .ok ()) packageName className [uidName callingPackageName, packageName] made

structure ComponentEnabledSetting.DecodesTo (r : ComponentEnabledSetting) (packageName className callingPackageName : String) :
    Prop where
  packageName : bytesAsStr r.packageName = .ok packageName
  className : bytesAsStr r.className = .ok className
  callingPackageName : bytesAsStr r.callingPackageName = .ok callingPackageName

/-- A device on which every activity is one of the launcher. -/
def launcherEnv : Env := { quietEnv with isLauncherActivity := fun _ _ _ _ => .ok true }

section Record
variable {r : ComponentEnabledSetting} {packageName className callingPackageName : String}

theorem onItem_of_decodesTo (h : r.DecodesTo packageName className callingPackageName) (env : Env) (task : ResolvedTask)
    (s : Session Unit ComponentEnabledSetting) :
    (ComponentEnabledSettingHandler.onItem env task r).run s =
      (ComponentEnabledSettingHandler.report env packageName className r.newState callingPackageName).run s := by
  rw [ComponentEnabledSettingHandler.onItem, run_lift_bind_of_ok h.packageName, run_lift_bind_of_ok h.className,
    run_lift_bind_of_ok h.callingPackageName]

/-- The calling package does not matter to a component that is not disabled. -/
theorem asksAbout_of_decodesTo {callingName : String} (h : r.DecodesTo packageName className callingName)
    (hcalling : componentEnabledStateDisabled ≤ r.newState → callingName = callingPackageName) :
    AsksAbout packageName className callingPackageName r := by
  intro env task s
  rw [onItem_of_decodesTo h, ComponentEnabledSettingHandler.report, EStateM.run_bind]
  have hafter := after_call (H := Unit) (T := ComponentEnabledSetting) .service env.service s
  cases hservice : (uprobestatsService env : Handling Unit ComponentEnabledSetting Unit).run s with
  | error e t =>
    rw [uprobestatsService] at hservice
    rw [hservice, after_error] at hafter
    refine ⟨[.service], by rw [after_error, hafter], fun hok => ?_, by simp, by rw [List.filterMap_cons_none rfl]; simp⟩
    simp [call, hok, run_lift] at hservice
  | ok a t =>
    rw [uprobestatsService] at hservice
    rw [hservice, after_ok] at hafter
    obtain ⟨made, hmade, hcheck, honly, huids⟩ := @ComponentEnabledSettingHandler.makes_check env
      packageName className callingName r.newState t
    refine ⟨.service :: made, ?_, fun _ => List.mem_cons_of_mem _ (hcheck trivial), ?_, ?_⟩
    · rw [hmade, hafter, List.append_assoc, List.singleton_append]
    · intro p c b hmem
      rcases List.mem_cons.mp hmem with heq | hmem
      · cases heq
      · exact honly p c b hmem
    · rw [List.filterMap_cons_none rfl]
      by_cases hstate : r.newState < componentEnabledStateDisabled
      · rw [if_pos hstate] at huids
        exact huids.trans (List.nil_prefix ..)
      · rwa [if_neg hstate, hcalling (Int32.not_lt.mp hstate)] at huids

/-- What is asked about an activity of the launcher. -/
theorem calls_launcherEnv (h : r.DecodesTo packageName className callingPackageName) (task : ResolvedTask) :
    (after ((ComponentEnabledSettingHandler.onItem launcherEnv task r).run ⟨(), [], []⟩)).calls =
      [.service, .isLauncherActivity packageName className true] ++
        if r.newState < componentEnabledStateDisabled then []
        else [.getUidForPackage (uidName callingPackageName), .getUidForPackage packageName,
          .statsWrite (.disabledLauncherActivityUids 0 0)] := by
  rw [onItem_of_decodesTo h, ComponentEnabledSettingHandler.report]
  by_cases hstate : r.newState < componentEnabledStateDisabled
  · simp only [if_pos hstate]
    rfl
  · simp only [if_neg hstate]
    rfl

end Record

/-! ### The program -/

/-- A name that fits its field of the record. -/
def FieldName (s : String) : Prop := NulFreeAscii s ∧ s.length ≤ 127

instance (s : String) : Decidable (FieldName s) := inferInstanceAs (Decidable (_ ∧ _))

/-- The process is in a call of `setComponentEnabledSetting` with these names. -/
structure ComponentCall (ctx : PtRegs) (mem : Memory) (packageName className callingPackageName : String) : Prop where
  packageRef : mem.RefersTo (ctx.regs 2 + kComponentNamePackageOffset) packageName
  classRef : mem.RefersTo (ctx.regs 2 + kComponentNameClassOffset) className
  callingPackage : mem.HoldsString (ctx.regs 6) callingPackageName
  packageName : FieldName packageName
  className : FieldName className
  callingPackageName : FieldName callingPackageName

/-- What the limit of the program leaves of a name. -/
def cutName (s : String) : String := firstChars s (min s.length 63)

theorem cutName_eq_iff {s : String} : cutName s = s ↔ s.length ≤ 63 := by
  constructor
  · intro h
    have hlen := congrArg String.length h
    rw [cutName, length_firstChars] at hlen
    omega
  · intro h
    exact firstChars_of_length_le (by omega)

theorem uidName_cutName_iff {s : String} : uidName (cutName s) = uidName s ↔ s.length ≤ 63 := by
  constructor
  · intro h
    by_contra hlong
    have hshell : "shell".length = 5 := by decide
    have hcut : cutName s ≠ "shell" := by
      intro heq
      have hlen := congrArg String.length heq
      rw [cutName, length_firstChars] at hlen
      omega
    have hne : s ≠ "shell" := by
      rintro rfl
      omega
    rw [uidName, if_neg hcut, uidName, if_neg hne, cutName_eq_iff] at h
    exact hlong h
  · intro h
    rw [cutName_eq_iff.mpr h]

section Program
variable {ctx : PtRegs} {mem : Memory} {packageName className callingPackageName : String}

theorem decodesTo_cutName (h : ComponentCall ctx mem packageName className callingPackageName)
    {slot r : ComponentEnabledSetting} (hr : setComponentEnabledSetting ctx mem (some slot) = some r) :
    r.DecodesTo (cutName packageName) (cutName className) (cutName callingPackageName) := by
  obtain rfl := Option.some.inj hr
  obtain ⟨packageRef, hpackageRef, hpackage⟩ := h.packageRef
  obtain ⟨classRef, hclassRef, hclass⟩ := h.classRef
  have hcut {jstring : UInt64} {s : String} (dest : Chars maxStringLength) (hs : FieldName s)
      (hholds : mem.HoldsString jstring s) : bytesAsStr (recordString mem jstring 64 dest) = .ok (cutName s) :=
    bytesAsStr_of_recorded (by decide) (by decide) (recorded_of_holds hholds hs.1) dest
  refine ⟨?_, ?_, hcut _ h.callingPackageName h.callingPackage⟩
  · rw [readRef_of_read hpackageRef]
    exact hcut _ h.packageName hpackage
  · rw [readRef_of_read hclassRef]
    exact hcut _ h.className hclass

end Program

/-- The names of a call reach the launcher check whole exactly when those that are asked about have at most
    63 characters. -/
theorem names_asked_whole_iff {ctx : PtRegs} {mem : Memory} {packageName className callingPackageName : String}
    (h : ComponentCall ctx mem packageName className callingPackageName) {slot r : ComponentEnabledSetting}
    (hr : setComponentEnabledSetting ctx mem (some slot) = some r) :
    AsksAbout packageName className callingPackageName r ↔ packageName.length ≤ 63 ∧ className.length ≤ 63 ∧
      (componentEnabledStateDisabled ≤ (ctx.regs 3).toUInt32.toInt32 → callingPackageName.length ≤ 63) := by
  have hcut := decodesTo_cutName h hr
  have hstate : r.newState = (ctx.regs 3).toUInt32.toInt32 := by
    obtain rfl := Option.some.inj hr
    rfl
  rw [← hstate]
  constructor
  · intro hasks
    obtain ⟨made, hmade, hcheck, honly, huids⟩ := hasks launcherEnv someTask ⟨(), [], []⟩
    rw [calls_launcherEnv hcut, List.nil_append] at hmade
    subst hmade
    have hmem : Call.isLauncherActivity (cutName packageName) (cutName className) true ∈
        [Call.service, .isLauncherActivity (cutName packageName) (cutName className) true] ++
          if r.newState < componentEnabledStateDisabled then []
          else [.getUidForPackage (uidName (cutName callingPackageName)), .getUidForPackage (cutName packageName),
            .statsWrite (.disabledLauncherActivityUids 0 0)] := by simp
    obtain ⟨hpackage, hclass⟩ := honly _ _ _ hmem
    refine ⟨cutName_eq_iff.mp hpackage, cutName_eq_iff.mp hclass, fun hdisabled => ?_⟩
    rw [if_neg (Int32.not_lt.mpr hdisabled)] at huids
    have hfirst : uidName (cutName callingPackageName) = uidName callingPackageName := (List.cons_prefix_cons.mp huids).1
    exact uidName_cutName_iff.mp hfirst
  · rintro ⟨hpackage, hclass, hcalling⟩
    rw [cutName_eq_iff.mpr hpackage, cutName_eq_iff.mpr hclass] at hcut
    exact asksAbout_of_decodesTo hcut fun hdisabled => cutName_eq_iff.mpr (hcalling hdisabled)

/-! ### Two calls -/

def stringObject (s : String) : List UInt8 :=
  (List.replicate 8 0 ++ Bytes.toLe 4 (2 * s.length) ++ List.replicate 4 0 ++ Text.utf8 s ++ List.replicate 256 0).take 256

/-- A process with a component name at 0x1000 and strings behind it. -/
def componentMemory (packageName className callingPackageName : String) : Memory :=
  .ofBytes 0x1000 (List.replicate 8 0 ++ Bytes.toLe 4 0x1110 ++ Bytes.toLe 4 0x1010 ++ stringObject packageName ++
    stringObject className ++ stringObject callingPackageName)

def disabling : PtRegs := ⟨fun i => if i = 2 then 0x1000 else if i = 3 then 2 else if i = 6 then 0x1210 else 0, 0⟩

def emptySetting : ComponentEnabledSetting := ⟨.zeros _, .zeros _, 0, .zeros _⟩

/-- A package of 64 characters. -/
def longPackage : String := String.ofList (List.replicate 64 'p')

theorem componentCall_a : ComponentCall disabling (componentMemory "p" "c" "shell") "p" "c" "shell" :=
  ⟨⟨0x1010, by decide +kernel, ⟨by decide +kernel, by decide +kernel, by decide +kernel⟩⟩,
    ⟨0x1110, by decide +kernel, ⟨by decide +kernel, by decide +kernel, by decide +kernel⟩⟩,
    ⟨by decide +kernel, by decide +kernel, by decide +kernel⟩, by decide +kernel, by decide +kernel, by decide +kernel⟩

theorem componentCall_longPackage :
    ComponentCall disabling (componentMemory longPackage "c" "shell") longPackage "c" "shell" :=
  ⟨⟨0x1010, by decide +kernel, ⟨by decide +kernel, by decide +kernel, by decide +kernel⟩⟩,
    ⟨0x1110, by decide +kernel, ⟨by decide +kernel, by decide +kernel, by decide +kernel⟩⟩,
    ⟨by decide +kernel, by decide +kernel, by decide +kernel⟩, by decide +kernel, by decide +kernel, by decide +kernel⟩

theorem names_asked_whole_of_short :
    ∃ r, setComponentEnabledSetting disabling (componentMemory "p" "c" "shell") (some emptySetting) = some r ∧
      AsksAbout "p" "c" "shell" r :=
  ⟨_, rfl, (names_asked_whole_iff componentCall_a rfl).mpr ⟨by decide, by decide, fun _ => by decide⟩⟩

/-- The launcher check is asked about the first 63 characters of the package. -/
theorem not_names_asked_whole_of_longPackage :
    ComponentCall disabling (componentMemory longPackage "c" "shell") longPackage "c" "shell" ∧
      ∃ r, setComponentEnabledSetting disabling (componentMemory longPackage "c" "shell") (some emptySetting) = some r ∧
        (after ((ComponentEnabledSettingHandler.onItem launcherEnv someTask r).run ⟨(), [], []⟩)).calls =
          [.service, .isLauncherActivity (String.ofList (List.replicate 63 'p')) "c" true,
            .getUidForPackage "com.android.shell", .getUidForPackage (String.ofList (List.replicate 63 'p')),
            .statsWrite (.disabledLauncherActivityUids 0 0)] :=
  ⟨componentCall_longPackage, _, rfl, by decide +kernel⟩

end UprobeStats
