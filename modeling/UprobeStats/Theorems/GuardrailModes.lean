import UprobeStats.Theorems.GuardrailSound

/-! The two ways of naming a method. The one by class and method compares its name with the allow list, the one by
    signature compares a token that ends in the middle of the parameters; what may follow an entry of the list
    decides both alike. -/

namespace UprobeStats
open Rust Text

/-! ### The token -/

/-- The first token of a text has what is before its first space. -/
theorem splitOn_append {α : Type} [BEq α] [LawfulBEq α] {a : α} {xs : List α} (h : a ∉ xs) (ys : List α) :
    ∃ front rest, (xs ++ ys).splitOn a = (xs ++ front) :: rest := by
  induction xs with
  | nil =>
    obtain ⟨front, rest, hys⟩ := List.exists_cons_of_ne_nil (List.splitOn_ne_nil a ys)
    exact ⟨front, rest, hys⟩
  | cons x xs ih =>
    rw [List.mem_cons, not_or] at h
    obtain ⟨front, rest, hrest⟩ := ih h.2
    refine ⟨front, rest, ?_⟩
    rw [List.cons_append, List.splitOn_cons_eq_if_modifyHead, if_neg (by simpa using Ne.symm h.1), hrest]
    rfl

/-! ### The allow list -/

/-- A mark that is put behind a text shows only where the text ends. -/
theorem prefix_append_cons_iff {α : Type} {entry name rest : List α} {mark close : α} (h : close ∉ entry) :
    entry ++ [mark] <+: name ++ close :: rest ↔ entry ++ [mark] <+: name ∨ (entry = name ∧ mark = close) := by
  constructor
  · rintro ⟨tail, htail⟩
    rw [List.append_assoc, List.singleton_append] at htail
    rcases List.append_eq_append_iff.mp htail with ⟨more, hname, hmore⟩ | ⟨more, hentry, hmore⟩
    · cases more with
      | nil =>
        obtain ⟨rfl, -⟩ := List.cons.inj hmore
        exact Or.inr ⟨by simpa using hname.symm, rfl⟩
      | cons c more =>
        obtain ⟨rfl, -⟩ := List.cons.inj hmore
        exact Or.inl ⟨more, by simp [hname]⟩
    · cases more with
      | nil =>
        obtain ⟨rfl, -⟩ := List.cons.inj hmore
        exact Or.inr ⟨by simpa using hentry, rfl⟩
      | cons c more =>
        obtain ⟨rfl, -⟩ := List.cons.inj hmore
        exact absurd (hentry ▸ by simp) h
  · rintro (⟨tail, rfl⟩ | ⟨rfl, rfl⟩)
    · exact ⟨tail ++ close :: rest, by simp⟩
    · exact ⟨rest, by simp⟩

theorem parenthesis_not_mem_allowed : ∀ entry ∈ allowedMethodPrefixes, '(' ∉ entry.toList := by decide +kernel

/-- A name with its parenthesis, and whatever stands behind it, is allowed when the name is. -/
theorem isAllowedName_signature {name token : String} {rest : List Char} (htoken : token.toList = name.toList ++ '(' :: rest) :
    isAllowedName token = isAllowedName name := by
  rw [isAllowedName, isAllowedName, List.any_eq, List.any_eq]
  refine decide_eq_decide.mpr (exists_congr fun entry => and_congr_right fun hentry => ?_)
  have hparenthesis := parenthesis_not_mem_allowed entry hentry
  have hmark {m : String} {c : Char} (hc : m.toList = [c]) : startsWith token (entry ++ m) = true ↔
      startsWith name (entry ++ m) = true ∨ (name = entry ∧ c = '(') := by
    rw [startsWith, startsWith, List.isPrefixOf_iff_prefix, List.isPrefixOf_iff_prefix, String.toList_append, hc, htoken,
      prefix_append_cons_iff hparenthesis, String.toList_inj, eq_comm (a := entry)]
  have hopen := hmark (m := "(") (c := '(') (by simp)
  have hdot := hmark (m := ".") (c := '.') (by simp)
  have hdollar := hmark (m := "$") (c := '$') (by simp)
  have hne : token ≠ entry := by
    rintro rfl
    exact hparenthesis (htoken ▸ by simp)
  have hother : ('.' : Char) ≠ '(' ∧ ('$' : Char) ≠ '(' := by decide
  simp only [Bool.or_eq_true, decide_eq_true_eq, hopen, hdot, hdollar, hne, hother.1, hother.2, and_true, and_false,
    or_false, false_or]
  rw [or_comm (a := name = entry)]

/-! ### A probe with both names -/

/-- The signature that the oatdump mode takes. -/
def signatureOf (returnType className methodName : String) (parameters : List String) : String :=
  returnType ++ " " ++ className ++ "." ++ methodName ++ "(" ++ ", ".intercalate parameters ++ ")"

/-- The probe names a method both ways; its return type, class and method have no spaces. -/
def ProbeConfig.NamesMethod (probe : ProbeConfig) : Prop :=
  ∃ (returnType className methodName : String) (parameters : List String),
    ' ' ∉ returnType.toList ∧ ' ' ∉ className.toList ∧ ' ' ∉ methodName.toList ∧
      probe.fullyQualifiedClassName = some className ∧ probe.methodName = some methodName ∧
      probe.methodSignature = some (signatureOf returnType className methodName parameters)

theorem ProbeConfig.NamesMethod.names {probe : ProbeConfig} (h : probe.NamesMethod) :
    ∃ name token, getFullMethodName probe true = .ok name ∧ getFullMethodName probe false = .ok token ∧
      isAllowedName token = isAllowedName name := by
  obtain ⟨returnType, className, methodName, parameters, hreturn, hclass, hmethod, hfqcn, hname, hsignature⟩ := h
  have hlist : (signatureOf returnType className methodName parameters).toList =
      returnType.toList ++ ' ' :: ((className ++ "." ++ methodName).toList ++ ['('] ++
        ((", ".intercalate parameters).toList ++ [')'])) := by
    simp [signatureOf]
  have hspace : ' ' ∉ (className ++ "." ++ methodName).toList ++ ['('] := by
    simp [hclass, hmethod]
  obtain ⟨front, rest, hfront⟩ := splitOn_append hspace ((", ".intercalate parameters).toList ++ [')'])
  refine ⟨className ++ "." ++ methodName, String.ofList ((className ++ "." ++ methodName).toList ++ ['('] ++ front),
    ?_, ?_, ?_⟩
  · rw [getFullMethodName, hfqcn, hname]
    rfl
  · rw [getFullMethodName, hsignature]
    have hparts : ((signatureOf returnType className methodName parameters).toList.splitOn ' ') =
        returnType.toList :: ((className ++ "." ++ methodName).toList ++ ['('] ++ front) :: rest := by
      rw [hlist, List.splitOn_append_cons_self_of_not_mem hreturn, hfront]
    show okOr (((signatureOf returnType className methodName parameters).toList.splitOn ' ').map
      String.ofList)[1]? _ = _
    rw [hparts]
    rfl
  · have htoken : (String.ofList ((className ++ "." ++ methodName).toList ++ ['('] ++ front)).toList =
        (className ++ "." ++ methodName).toList ++ '(' :: front := by
      rw [String.toList_ofList, List.append_assoc, List.singleton_append]
    exact isAllowedName_signature htoken

theorem areAllowed_modes : ∀ {probes : List ProbeConfig}, (∀ probe ∈ probes, probe.NamesMethod) →
    ∃ b, areAllowed true probes = .ok b ∧ areAllowed false probes = .ok b
  | [], _ => ⟨true, rfl, rfl⟩
  | probe :: probes, h => by
    obtain ⟨hprobe, hprobes⟩ := List.forall_mem_cons.mp h
    obtain ⟨name, token, hname, htoken, hsame⟩ := hprobe.names
    obtain ⟨b, htrue, hfalse⟩ := areAllowed_modes hprobes
    rw [areAllowed, areAllowed, hname, htoken, ok_andThen, ok_andThen, hsame, htrue, hfalse]
    by_cases hallowed : isAllowedName name = true
    · exact ⟨b, if_pos hallowed, if_pos hallowed⟩
    · exact ⟨false, if_neg hallowed, if_neg hallowed⟩

/-- The guardrail decides alike on the two names of the methods of a config. -/
theorem isAllowed_modes_agree {config : UprobestatsConfig}
    (h : ∀ task ∈ config.tasks, ∀ probe ∈ task.probeConfigs, probe.NamesMethod) :
    ∃ b, isAllowed config true true = .ok b ∧ isAllowed config true false = .ok b := by
  refine areAllowed_modes fun probe hprobe => ?_
  obtain ⟨task, htask, hprobe⟩ := List.mem_flatMap.mp hprobe
  exact h task htask probe hprobe

/-- A probe of `updateDeviceIdleTempAllowlist`, with a parameter that has a space. -/
def allowlistProbe : ProbeConfig where
  fullyQualifiedClassName := some "com.android.server.am.ActivityManagerService$LocalService"
  methodName := some "updateDeviceIdleTempAllowlist"
  methodSignature := some
    "void com.android.server.am.ActivityManagerService$LocalService.updateDeviceIdleTempAllowlist(int[], a b)"

theorem namesMethod_allowlistProbe : allowlistProbe.NamesMethod :=
  ⟨"void", "com.android.server.am.ActivityManagerService$LocalService", "updateDeviceIdleTempAllowlist", ["int[]", "a b"],
    by decide +kernel, by decide +kernel, by decide +kernel, rfl, rfl, by decide +kernel⟩

theorem isAllowed_modes_agree_on_allowlistProbe :
    ∃ b, isAllowed (oneTask [allowlistProbe]) true true = .ok b ∧
      isAllowed (oneTask [allowlistProbe]) true false = .ok b := by
  refine isAllowed_modes_agree fun task htask probe hprobe => ?_
  obtain rfl := List.mem_singleton.mp htask
  obtain rfl := List.mem_singleton.mp hprobe
  exact namesMethod_allowlistProbe

end UprobeStats
