import UprobeStats.Cxx.Guardrail
import UprobeStats.Theorems.GuardrailSound

/-! The two guardrails. The one in Rust refuses a config where the one in C++ puts a default for a missing
    field or a missing property; where nothing is missing they accept the same configs. -/

namespace UprobeStats
open Rust

/-- The probe has the fields that its method is named by. -/
def ProbeConfig.Named (offsetsApiEnabled : Bool) (probe : ProbeConfig) : Prop :=
  if offsetsApiEnabled then probe.fullyQualifiedClassName.isSome ∧ probe.methodName.isSome
  else probe.methodSignature.isSome

section Names
variable {probe : ProbeConfig} {offsetsApiEnabled : Bool} {name : String}

theorem cxx_isAllowedName (name : String) : Cxx.isAllowedName allowedMethodPrefixes name = isAllowedName name := by
  simp only [Cxx.isAllowedName, isAllowedName]
  congr 1
  funext entry
  cases decide (name = entry) <;> cases Text.startsWith name (entry ++ "(") <;>
    cases Text.startsWith name (entry ++ ".") <;> cases Text.startsWith name (entry ++ "$") <;> rfl

theorem startsWith_empty {front : String} (h : front ≠ "") : Text.startsWith "" front = false := by
  refine Bool.eq_false_iff.mpr fun hstarts => h ?_
  obtain ⟨rest, hrest⟩ := Text.startsWith_iff.mp hstarts
  exact String.toList_inj.mp (List.append_eq_nil_iff.mp hrest.symm).1

theorem isAllowedName_empty : isAllowedName "" = false := by
  rw [isAllowedName, List.any_eq_false]
  intro entry hmem
  have hne : entry ≠ "" := by
    rintro rfl
    simp [allowedMethodPrefixes] at hmem
  have hfollowed (mark : String) : Text.startsWith "" (entry ++ mark) = false :=
    startsWith_empty fun h => hne (String.append_eq_empty_iff.mp h).1
  simp [hfollowed, hne.symm]

/-- A name that Rust finds is the one that C++ finds. -/
theorem cxx_getFullMethodName (h : getFullMethodName probe offsetsApiEnabled = .ok name) :
    Cxx.getFullMethodName probe offsetsApiEnabled = name := by
  cases offsetsApiEnabled with
  | true =>
    obtain ⟨fqcn, hclass, h⟩ := andThen_eq_ok.mp h
    obtain ⟨methodName, hmethod, h⟩ := andThen_eq_ok.mp h
    cases h
    rw [Cxx.getFullMethodName, okOr_eq_ok.mp hclass, okOr_eq_ok.mp hmethod]
    rfl
  | false =>
    obtain ⟨methodSignature, hsignature, h⟩ := andThen_eq_ok.mp h
    have hparts := okOr_eq_ok.mp h
    obtain ⟨hlt, -⟩ := List.getElem?_eq_some_iff.mp hparts
    rw [Cxx.getFullMethodName, okOr_eq_ok.mp hsignature, Option.getD_some, Bool.false_and, if_neg Bool.false_ne_true,
      Cxx.split]
    dsimp only
    rw [if_neg (by omega), List.getD_eq_getElem?_getD, hparts, Option.getD_some]

/-- Where Rust finds no name for a probe that has its fields, C++ takes the empty one. -/
theorem cxx_getFullMethodName_of_error {e : Error} (h : getFullMethodName probe offsetsApiEnabled = .error e)
    (hnamed : probe.Named offsetsApiEnabled) : Cxx.getFullMethodName probe offsetsApiEnabled = "" := by
  cases offsetsApiEnabled with
  | true =>
    obtain ⟨fqcn, hclass⟩ := Option.isSome_iff_exists.mp hnamed.1
    obtain ⟨methodName, hmethod⟩ := Option.isSome_iff_exists.mp hnamed.2
    rw [getFullMethodName, hclass, hmethod] at h
    cases h
  | false =>
    obtain ⟨methodSignature, hsignature⟩ := Option.isSome_iff_exists.mp hnamed
    rw [getFullMethodName, hsignature] at h
    have hnone : ((methodSignature.toList.splitOn ' ').map String.ofList)[1]? = none := by
      cases hparts : ((methodSignature.toList.splitOn ' ').map String.ofList)[1]? with
      | none => rfl
      | some part =>
        have hok : okOr ((methodSignature.toList.splitOn ' ').map String.ofList)[1]? "Method signature is invalid" =
            .error e := h
        rw [hparts] at hok
        cases hok
    have hlt := List.getElem?_eq_none_iff.mp hnone
    rw [Cxx.getFullMethodName, hsignature, Option.getD_some, Bool.false_and, if_neg Bool.false_ne_true, Cxx.split]
    exact if_pos (by omega)

theorem areAllowed_iff : ∀ {probes : List ProbeConfig}, areAllowed offsetsApiEnabled probes = .ok true ↔
    ∀ probe ∈ probes, ∃ name, getFullMethodName probe offsetsApiEnabled = .ok name ∧ isAllowedName name = true
  | [] => by simp [areAllowed]
  | probe :: probes => by
    rw [areAllowed, andThen_eq_ok, List.forall_mem_cons, ← areAllowed_iff]
    constructor
    · rintro ⟨name, hname, h⟩
      by_cases hallowed : isAllowedName name = true
      · rw [if_pos hallowed] at h
        exact ⟨⟨name, hname, hallowed⟩, h⟩
      · rw [if_neg hallowed] at h
        cases h
    · rintro ⟨⟨name, hname, hallowed⟩, hrest⟩
      exact ⟨name, hname, by rwa [if_pos hallowed]⟩

/-- A probe with its fields has a name that is allowed, or has none, in both programs. -/
theorem cxx_allowed_iff (hnamed : probe.Named offsetsApiEnabled) :
    isAllowedName (Cxx.getFullMethodName probe offsetsApiEnabled) = true ↔
      ∃ name, getFullMethodName probe offsetsApiEnabled = .ok name ∧ isAllowedName name = true := by
  cases hname : getFullMethodName probe offsetsApiEnabled with
  | ok name => simp [cxx_getFullMethodName hname]
  | error e => simp [cxx_getFullMethodName_of_error hname hnamed, isAllowedName_empty]

end Names

section Builds
variable {dev : Device}

theorem cxx_getProperty_iff (val : String) : Cxx.getProperty (some val) "unknown" = "user" ↔ val = "user" := by
  rw [Cxx.getProperty]
  by_cases hempty : val = ""
  · rw [if_pos hempty, hempty]
    decide
  · rw [if_neg hempty]

/-- C++ takes a build for a user build only where Rust does. -/
theorem isUserBuild_of_cxx (h : Cxx.buildType dev = "user") : dev.isUserBuild = true := by
  unfold Device.isUserBuild
  rcases hbuild : dev.buildType with e | _ | val
  · rfl
  · rfl
  · rw [Cxx.buildType, hbuild] at h
    exact decide_eq_true ((cxx_getProperty_iff val).mp h)

/-- Where the build type is set, they agree on it. -/
theorem isUserBuild_iff_cxx {val : String} (hset : dev.buildType = .ok (some val)) :
    dev.isUserBuild = true ↔ Cxx.buildType dev = "user" := by
  rw [Cxx.buildType, hset, Device.isUserBuild, hset]
  exact decide_eq_true_iff.trans (cxx_getProperty_iff val).symm

theorem cxx_isAllowed_iff {config : UprobestatsConfig} {offsetsApiEnabled : Bool} {buildType : String} :
    Cxx.isAllowed allowedMethodPrefixes config buildType offsetsApiEnabled = true ↔ (buildType = "user" →
      ∀ probe ∈ config.tasks.flatMap (·.probeConfigs),
        isAllowedName (Cxx.getFullMethodName probe offsetsApiEnabled) = true) := by
  rw [Cxx.isAllowed]
  by_cases huser : buildType = "user"
  · rw [if_neg (not_not_intro huser), imp_iff_right huser]
    simp only [List.all_eq_true, List.mem_flatMap, cxx_isAllowedName]
    exact ⟨fun h probe ⟨task, htask, hprobe⟩ => h task htask probe hprobe,
      fun h task htask probe hprobe => h probe ⟨task, htask, hprobe⟩⟩
  · rw [if_pos huser]
    simp [huser]

theorem isAllowed_iff {config : UprobestatsConfig} {isUserBuild offsetsApiEnabled : Bool} :
    isAllowed config isUserBuild offsetsApiEnabled = .ok true ↔ (isUserBuild = true →
      ∀ probe ∈ config.tasks.flatMap (·.probeConfigs),
        ∃ name, getFullMethodName probe offsetsApiEnabled = .ok name ∧ isAllowedName name = true) := by
  rw [isAllowed]
  cases isUserBuild with
  | false => simp
  | true => simp [areAllowed_iff]

end Builds

/-- On one allow list, what the guardrail in Rust accepts the one in C++ accepts; and they accept the same
    configs whose probes have the fields that they are named by, when the build type is set. -/
theorem guardrail_refines (config : UprobestatsConfig) (dev : Device) (offsetsApiEnabled : Bool) :
    (isAllowed config dev.isUserBuild offsetsApiEnabled = .ok true →
      Cxx.isAllowed allowedMethodPrefixes config (Cxx.buildType dev) offsetsApiEnabled = true) ∧
    ((∃ val, dev.buildType = .ok (some val)) →
      (∀ task ∈ config.tasks, ∀ probe ∈ task.probeConfigs, probe.Named offsetsApiEnabled) →
        (isAllowed config dev.isUserBuild offsetsApiEnabled = .ok true ↔
          Cxx.isAllowed allowedMethodPrefixes config (Cxx.buildType dev) offsetsApiEnabled = true)) := by
  rw [isAllowed_iff, cxx_isAllowed_iff]
  constructor
  · intro h huser probe hprobe
    obtain ⟨name, hname, hallowed⟩ := h (isUserBuild_of_cxx huser) probe hprobe
    rw [cxx_getFullMethodName hname]
    exact hallowed
  · rintro ⟨val, hset⟩ hnamed
    rw [isUserBuild_iff_cxx hset]
    refine imp_congr_right fun _ => forall₂_congr fun probe hprobe => ?_
    obtain ⟨task, htask, hprobe⟩ := List.mem_flatMap.mp hprobe
    exact (cxx_allowed_iff (hnamed task htask probe hprobe)).symm

theorem guardrail_agrees_on_oomAdjuster :
    isAllowed (oneTask [oomAdjusterProbe]) (quietDevice (oneTask [oomAdjusterProbe])).isUserBuild true = .ok true ↔
      Cxx.isAllowed allowedMethodPrefixes (oneTask [oomAdjusterProbe])
        (Cxx.buildType (quietDevice (oneTask [oomAdjusterProbe]))) true = true :=
  (guardrail_refines (oneTask [oomAdjusterProbe]) (quietDevice (oneTask [oomAdjusterProbe])) true).2 ⟨"user", rfl⟩
    (by simp [oneTask, oomAdjusterProbe, ProbeConfig.Named])

end UprobeStats
