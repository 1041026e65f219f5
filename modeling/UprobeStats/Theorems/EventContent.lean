import UprobeStats.DisruptiveApp
import UprobeStats.Theorems.PollLoop

/-! Event content and the end of a monitor. The handlers of `disruptive_app.rs` decode every string of a
    record, so a poll loop of theirs completes exactly when all that was copied into its records is UTF-8. -/

namespace UprobeStats
open Rust Effect Text

/-! ### The handlers -/

section Handlers
variable {env : Env}

def BindServiceLocked.Decodes (r : BindServiceLocked) : Prop :=
  ∀ field ∈ [r.intentPackage, r.intentAction, r.intentComponentNamePackage, r.intentComponentNameClass,
    r.callingPackage], ∃ s, bytesAsStr field = .ok s

def ComponentEnabledSetting.Decodes (r : ComponentEnabledSetting) : Prop :=
  ∀ field ∈ [r.packageName, r.className, r.callingPackageName], ∃ s, bytesAsStr field = .ok s

theorem succeeds_writeUnlessUserBuild (henv : env.Answers) {T : Type} {xs : List T} (atom : Atom) :
    Succeeds (fun s => s.handed = xs) (writeUnlessUserBuild env atom) fun _ t => t.handed = xs := by
  unfold writeUnlessUserBuild
  split
  · exact .pure fun _ hs => hs
  · exact henv.succeeds_statsWrite atom

theorem BindServiceLockedHandler.succeeds_report (henv : env.Answers) {xs : List BindServiceLocked} (flags : Int64)
    (intentPackage intentAction componentPackage componentClass callingPackage : String) :
    Succeeds (fun s => s.handed = xs)
      (report env flags intentPackage intentAction componentPackage componentClass callingPackage)
      fun _ t => t.handed = xs := by
  unfold report
  split
  · exact .pure fun _ hs => hs
  · refine (succeeds_writeUnlessUserBuild henv _).bind fun _ => henv.succeeds_service.bind fun _ => ?_
    refine (henv.succeeds_getUidForPackage _).bind fun _ => (henv.succeeds_getUidForPackage _).bind fun _ => ?_
    exact henv.succeeds_statsWrite _

theorem bindServiceLockedHandler_takes (henv : env.Answers) :
    bindServiceLockedHandler.Takes env BindServiceLocked.Decodes where
  succeeds task r xs hgood := by
    obtain ⟨intentPackage, h1⟩ := hgood r.intentPackage (by simp)
    obtain ⟨intentAction, h2⟩ := hgood r.intentAction (by simp)
    obtain ⟨componentPackage, h3⟩ := hgood r.intentComponentNamePackage (by simp)
    obtain ⟨componentClass, h4⟩ := hgood r.intentComponentNameClass (by simp)
    obtain ⟨callingPackage, h5⟩ := hgood r.callingPackage (by simp)
    exact .lift_bind h1 (.lift_bind h2 (.lift_bind h3 (.lift_bind h4 (.lift_bind h5
      (BindServiceLockedHandler.succeeds_report henv _ _ _ _ _ _)))))
  good_of_ok task r s t u hok := by
    obtain ⟨intentPackage, h1, hok⟩ := bind_lift_eq_ok.mp hok
    obtain ⟨intentAction, h2, hok⟩ := bind_lift_eq_ok.mp hok
    obtain ⟨componentPackage, h3, hok⟩ := bind_lift_eq_ok.mp hok
    obtain ⟨componentClass, h4, hok⟩ := bind_lift_eq_ok.mp hok
    obtain ⟨callingPackage, h5, -⟩ := bind_lift_eq_ok.mp hok
    simp [BindServiceLocked.Decodes, h1, h2, h3, h4, h5]
  finishes xs := .pure fun _ hs => hs

theorem ComponentEnabledSettingHandler.succeeds_report (henv : env.Answers) {xs : List ComponentEnabledSetting}
    (packageName className : String) (newState : Int32) (callingPackageName : String) :
    Succeeds (fun s => s.handed = xs) (report env packageName className newState callingPackageName)
      fun _ t => t.handed = xs := by
  unfold report
  refine henv.succeeds_service.bind fun _ => (henv.succeeds_isLauncherActivity _ _ _).bind fun isLauncher => ?_
  split
  · exact .pure fun _ hs => hs
  · refine (succeeds_writeUnlessUserBuild henv _).bind fun _ => ?_
    split
    · refine (henv.succeeds_getUidForPackage _).bind fun _ => (henv.succeeds_getUidForPackage _).bind fun _ => ?_
      exact henv.succeeds_statsWrite _
    · exact .pure fun _ hs => hs

theorem componentEnabledSettingHandler_takes (henv : env.Answers) :
    componentEnabledSettingHandler.Takes env ComponentEnabledSetting.Decodes where
  succeeds task r xs hgood := by
    obtain ⟨packageName, h1⟩ := hgood r.packageName (by simp)
    obtain ⟨className, h2⟩ := hgood r.className (by simp)
    obtain ⟨callingPackageName, h3⟩ := hgood r.callingPackageName (by simp)
    exact .lift_bind h1 (.lift_bind h2 (.lift_bind h3
      (ComponentEnabledSettingHandler.succeeds_report henv _ _ _ _)))
  good_of_ok task r s t u hok := by
    obtain ⟨packageName, h1, hok⟩ := bind_lift_eq_ok.mp hok
    obtain ⟨className, h2, hok⟩ := bind_lift_eq_ok.mp hok
    obtain ⟨callingPackageName, h3, -⟩ := bind_lift_eq_ok.mp hok
    simp [ComponentEnabledSetting.Decodes, h1, h2, h3]
  finishes xs := .pure fun _ hs => hs

end Handlers

/-! ### The records -/

def bindServiceLockedStrings (ctx : PtRegs) (mem : Memory) : List (List UInt8) :=
  let componentNamePtr := readRef mem (ctx.regs 4 + kIntentComponentNameOffset)
  [recorded mem (readRef mem (ctx.regs 4 + kIntentPackageOffset)) 128,
    recorded mem (readRef mem (ctx.regs 4 + kIntentActionOffset)) 128,
    recorded mem (readRef mem (componentNamePtr + kComponentNamePackageOffset)) 128,
    recorded mem (readRef mem (componentNamePtr + kComponentNameClassOffset)) 128,
    recorded mem (readRef mem (ctx.sp + kCallingPackageStackFrameOffset)) 128]

def componentEnabledSettingStrings (ctx : PtRegs) (mem : Memory) : List (List UInt8) :=
  [recorded mem (readRef mem (ctx.regs 2 + kComponentNamePackageOffset)) 64,
    recorded mem (readRef mem (ctx.regs 2 + kComponentNameClassOffset)) 64,
    recorded mem (ctx.regs 6) 64]

/-- The turns of a loop that polls what firings of a program write. -/
def writtenBy {T : Type} (program : PtRegs → Memory → Option T → Option T) (turns : List (Turn (Firing T))) :
    List (Turn T) :=
  turns.map fun x => ⟨x.elapsed, x.items.filterMap fun f => program f.ctx f.mem (some f.slot)⟩

theorem decodes_bindServiceLocked {f : Firing BindServiceLocked} {r : BindServiceLocked}
    (h : bindServiceLocked f.ctx f.mem (some f.slot) = some r) :
    r.Decodes ↔ ∀ string ∈ bindServiceLockedStrings f.ctx f.mem, (fromUtf8? string).isSome := by
  obtain rfl := Option.some.inj h
  simp only [BindServiceLocked.Decodes, bindServiceLockedStrings, List.forall_mem_cons, recordStringArgFromSp,
    bytesAsStr_recordString (n := maxStringLength) (show 0 < (128 : UInt32).toNat by decide) (by decide)]
  simp

theorem decodes_setComponentEnabledSetting {f : Firing ComponentEnabledSetting} {r : ComponentEnabledSetting}
    (h : setComponentEnabledSetting f.ctx f.mem (some f.slot) = some r) :
    r.Decodes ↔ ∀ string ∈ componentEnabledSettingStrings f.ctx f.mem, (fromUtf8? string).isSome := by
  obtain rfl := Option.some.inj h
  simp only [ComponentEnabledSetting.Decodes, componentEnabledSettingStrings, List.forall_mem_cons,
    bytesAsStr_recordString (n := maxStringLength) (show 0 < (64 : UInt32).toNat by decide) (by decide)]
  simp

section Turns
variable {T : Type} {program : PtRegs → Memory → Option T → Option T} {duration : Nat}

theorem beforeExpiry_writtenBy {turns : List (Turn (Firing T))} :
    beforeExpiry duration (writtenBy program turns) = writtenBy program (beforeExpiry duration turns) := by
  simp [beforeExpiry, writtenBy, List.takeWhile_map, Function.comp_def]

/-- A monitor completes exactly when each of its polls has a timeout and all strings that the program
    copied are good. -/
theorem completes_writtenBy_iff {H : Type} {h : Handler H T} {env : Env} {good : T → Prop} (ht : h.Takes env good)
    {strings : PtRegs → Memory → List (List UInt8)}
    (hgood : ∀ (f : Firing T) (r : T), program f.ctx f.mem (some f.slot) = some r →
      (good r ↔ ∀ string ∈ strings f.ctx f.mem, (fromUtf8? string).isSome))
    (hwrites : ∀ f : Firing T, ∃ r, program f.ctx f.mem (some f.slot) = some r) (task : ResolvedTask)
    {turns : List (Turn (Firing T))} (hexpires : ∃ x ∈ turns, duration < x.elapsed) :
    Completes h env task duration (writtenBy program turns) ↔
      ∀ x ∈ beforeExpiry duration turns, duration - x.elapsed < 2 ^ 31 ∧
        ∀ f ∈ x.items, ∀ string ∈ strings f.ctx f.mem, (fromUtf8? string).isSome := by
  have hwritten : ∃ x ∈ writtenBy program turns, duration < x.elapsed := by
    obtain ⟨y, hy, hlt⟩ := hexpires
    exact ⟨_, List.mem_map_of_mem hy, hlt⟩
  rw [completes_iff ht task hwritten, beforeExpiry_writtenBy]
  simp only [writtenBy, List.forall_mem_map, List.mem_filterMap, forall_exists_index, and_imp]
  refine forall₂_congr fun x _ => and_congr_right fun _ => ⟨fun h f hf => ?_, fun h r f hf hr => ?_⟩
  · obtain ⟨r, hr⟩ := hwrites f
    exact (hgood f r hr).mp (h r f hf hr)
  · exact (hgood f r hr).mpr (h f hf)

end Turns

/-- The two monitors of disruptive apps complete exactly when the time left at each poll fits its timeout
    and every string copied into the records polled is UTF-8. -/
theorem monitors_complete_iff {env : Env} (henv : env.Answers) (task : ResolvedTask) (duration : Nat) :
    (∀ turns : List (Turn (Firing BindServiceLocked)), (∃ x ∈ turns, duration < x.elapsed) →
      (Completes bindServiceLockedHandler env task duration (writtenBy bindServiceLocked turns) ↔
        ∀ x ∈ beforeExpiry duration turns, duration - x.elapsed < 2 ^ 31 ∧
          ∀ f ∈ x.items, ∀ string ∈ bindServiceLockedStrings f.ctx f.mem, (fromUtf8? string).isSome)) ∧
    (∀ turns : List (Turn (Firing ComponentEnabledSetting)), (∃ x ∈ turns, duration < x.elapsed) →
      (Completes componentEnabledSettingHandler env task duration (writtenBy setComponentEnabledSetting turns) ↔
        ∀ x ∈ beforeExpiry duration turns, duration - x.elapsed < 2 ^ 31 ∧
          ∀ f ∈ x.items, ∀ string ∈ componentEnabledSettingStrings f.ctx f.mem, (fromUtf8? string).isSome)) :=
  ⟨fun _ hexpires => completes_writtenBy_iff (bindServiceLockedHandler_takes henv)
      (fun _ _ hr => decodes_bindServiceLocked hr) (fun _ => ⟨_, rfl⟩) task hexpires,
    fun _ hexpires => completes_writtenBy_iff (componentEnabledSettingHandler_takes henv)
      (fun _ _ hr => decodes_setComponentEnabledSetting hr) (fun _ => ⟨_, rfl⟩) task hexpires⟩

/-! ### One event -/

def intentMemory (count : Nat) (content : List UInt8) : Memory :=
  .ofBytes 0x1000 (List.replicate 48 0 ++ Bytes.toLe 4 0x1040 ++ List.replicate 20 0 ++ Bytes.toLe 4 count ++
    List.replicate 4 0 ++ content)

/-- A service is bound with that intent; the timer expires after the next poll. -/
def bindOnce (count : Nat) (content : List UInt8) : List (Turn (Firing BindServiceLocked)) :=
  let zeros := Chars.zeros maxStringLength
  [⟨0, [⟨⟨fun i => if i = 4 then 0x1000 else 0, 0⟩, intentMemory count content, 0,
      ⟨zeros, zeros, zeros, zeros, 0, zeros⟩⟩]⟩, ⟨1001, []⟩]

/-- The package U+80FF is stored as two bytes, of which the first is copied; it is not UTF-8. -/
theorem not_completes_of_utf16 :
    ¬Completes bindServiceLockedHandler quietEnv someTask 1000
      (writtenBy bindServiceLocked (bindOnce 3 [0xFF, 0x80])) := by
  rintro ⟨t, hok, -⟩
  have herror : isOk ((pollLoopGeneric bindServiceLockedHandler quietEnv someTask bindServiceLockedHandler.mapPath 1000
      ((writtenBy bindServiceLocked (bindOnce 3 [0xFF, 0x80])).map Turn.round)).run
        { handler := bindServiceLockedHandler.default }) = false := by decide +kernel
  rw [hok] at herror
  cases herror

theorem monitors_complete_of_ascii :
    Completes bindServiceLockedHandler quietEnv someTask 1000 (writtenBy bindServiceLocked (bindOnce 4 [0x68, 0x69])) :=
  ((monitors_complete_iff quietEnv_answers someTask 1000).1 _ ⟨⟨1001, []⟩, by simp [bindOnce], by decide⟩).mpr
    (by decide +kernel)

end UprobeStats
