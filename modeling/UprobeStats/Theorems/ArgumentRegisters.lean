import Mathlib.Tactic.FinCases
import UprobeStats.Theorems.CallArguments
import UprobeStats.Theorems.Requests

/-! The registers of a call. `call_detail` stores one register more than its record has room for, and the handler
    looks for an argument wherever the task says: past the last register it panics. -/

namespace UprobeStats
open Rust Effect

/-! ### The program -/

section Program
variable (ctx : PtRegsX86Supported) (stack : CallResult)

theorem storeRegisters_eq : storeRegisters ctx stack =
    ⟨{ stack with regs := fun i => ctx.regs (i.castLE (by omega)) }, [10]⟩ := by
  have hregs : (storeRegisters ctx stack).result.regs = fun i => ctx.regs (i.castLE (by omega)) := by
    funext i
    fin_cases i <;> rfl
  have hpc : (storeRegisters ctx stack).result.pc = stack.pc := rfl
  have houtside : (storeRegisters ctx stack).outside = [10] := rfl
  calc storeRegisters ctx stack
      = ⟨⟨(storeRegisters ctx stack).result.pc, (storeRegisters ctx stack).result.regs⟩,
          (storeRegisters ctx stack).outside⟩ := rfl
    _ = _ := by rw [hregs, hpc, houtside]

/-- The record has the first ten registers whatever was on the stack; the eleventh is stored behind it. -/
theorem callDetail_eq (slot : Option CallResult) : callDetail ctx stack slot =
    (slot.map fun _ => ⟨ctx.pc, fun i => ctx.regs (i.castLE (by omega))⟩, [10]) := by
  rw [callDetail, storeRegisters_eq]

end Program

/-! ### The handler -/

namespace CallResultHandler

/-- A position that the handler answers with an error: it is before the first register, or its register holds
    what is not an `i32`. -/
def Rejects (data : CallResult) (p : Int32) : Prop :=
  p.toInt < -2 ∨ ∃ i : Fin 10, p.toInt + 2 = i.val ∧ 2 ^ 31 ≤ (data.regs i).toNat

instance (data : CallResult) (p : Int32) : Decidable (Rejects data p) := inferInstanceAs (Decidable (_ ∨ _))

section Position
variable {data : CallResult} {p : Int32}

/-- The argument before the register file, in it and behind it. -/
theorem primitiveArgument_eq : primitiveArgument data p =
    if h : 0 ≤ p.toInt + 2 ∧ p.toInt + 2 < 10 then tryI32 (data.regs ⟨(p.toInt + 2).toNat, by omega⟩).toNat
    else if p.toInt + 2 < 0 then .error .tryFromInt
    else if p.toInt + 2 < 2 ^ 31 then .error (.panic "index out of bounds")
    else .error (.panic "attempt to add with overflow") := by
  have hoffset : javaArgumentRegisterOffset.toInt = 2 := by decide
  have hle := p.le_toInt
  have hlt := p.toInt_lt
  by_cases hoverflow : p.toInt + 2 < 2 ^ 31
  · have hsum : (Int32.ofInt (2 + p.toInt)).toInt = p.toInt + 2 := by
      rw [Int32.toInt_ofInt_of_le (by omega) (by omega)]
      omega
    have hadd : addI32 javaArgumentRegisterOffset p = .ok (Int32.ofInt (2 + p.toInt)) :=
      addI32_eq_ok.mpr (by rw [hsum, hoffset]; omega)
    rw [primitiveArgument, hadd, ok_andThen, hsum]
    by_cases hneg : p.toInt + 2 < 0
    · have hindex : tryU64 (p.toInt + 2) = .error .tryFromInt := if_neg (by omega)
      rw [dif_neg (by omega), if_pos hneg, hindex, error_andThen]
    · have hindex : tryU64 (p.toInt + 2) = .ok (UInt64.ofNat (p.toInt + 2).toNat) := if_pos (by omega)
      have hnat : (UInt64.ofNat (p.toInt + 2).toNat).toNat = (p.toInt + 2).toNat := by
        rw [UInt64.toNat_ofNat', Nat.mod_eq_of_lt (by omega)]
      rw [hindex, ok_andThen, hnat]
      by_cases hten : p.toInt + 2 < 10
      · have hregister : data.register (p.toInt + 2).toNat = .ok (data.regs ⟨(p.toInt + 2).toNat, by omega⟩) :=
          dif_pos (by omega)
        rw [hregister, ok_andThen, dif_pos ⟨by omega, hten⟩]
      · have hregister : data.register (p.toInt + 2).toNat = .error (.panic "index out of bounds") :=
          dif_neg (by omega)
        rw [hregister, error_andThen, dif_neg (by omega), if_neg hneg, if_pos hoverflow]
  · have hadd : addI32 javaArgumentRegisterOffset p = .error (.panic "attempt to add with overflow") := by
      rw [addI32, tryI32, if_neg (by omega)]
      rfl
    rw [dif_neg (by omega), if_neg (by omega), if_neg hoverflow, primitiveArgument, hadd, error_andThen]

theorem primitiveArgument_panics : (∃ text, primitiveArgument data p = .error (.panic text)) ↔ 8 ≤ p.toInt := by
  rw [primitiveArgument_eq]
  split
  · rename_i h
    simp only [tryI32_eq_error, reduceCtorEq, and_false, exists_false, false_iff]
    omega
  · split
    · simp only [Except.error.injEq, reduceCtorEq, exists_false, false_iff]
      omega
    · have : 8 ≤ p.toInt := by omega
      split <;> simp [this]

theorem primitiveArgument_reads :
    (∃ x, primitiveArgument data p = .ok x) ↔ p.toInt < 8 ∧ ¬Rejects data p := by
  rw [primitiveArgument_eq]
  split
  · rename_i h
    have hrejects : Rejects data p ↔ 2 ^ 31 ≤ (data.regs ⟨(p.toInt + 2).toNat, by omega⟩).toNat := by
      constructor
      · rintro (hlow | ⟨i, hi, hbig⟩)
        · omega
        · have : i = ⟨(p.toInt + 2).toNat, by omega⟩ := Fin.ext (by dsimp only; omega)
          rwa [← this]
      · intro hbig
        exact Or.inr ⟨_, by dsimp only; omega, hbig⟩
    rw [hrejects]
    constructor
    · rintro ⟨x, hx⟩
      have := tryI32_eq_ok.mp hx
      have := x.toInt_lt
      omega
    · rintro ⟨-, hsmall⟩
      exact ⟨_, if_pos (by omega)⟩
  · rename_i h
    have hfails : ¬(p.toInt < 8 ∧ ¬Rejects data p) := fun ⟨hlt, hnot⟩ => hnot (Or.inl (by omega))
    split
    · simp [hfails]
    · split <;> simp [hfails]

end Position

/-- The positions that are looked up come before the first rejected one, and it takes one of them without a register
    to panic. -/
theorem mapM_primitiveArgument_panics {data : CallResult} {positions : List Int32} :
    (∃ text, positions.mapM (primitiveArgument data) = .error (.panic text)) ↔
      ∃ p ∈ positions.takeWhile fun p => ¬Rejects data p, 8 ≤ p.toInt := by
  induction positions with
  | nil => simp [pure, Except.pure]
  | cons p ps ih =>
    rw [List.mapM_cons]
    by_cases hread : p.toInt < 8 ∧ ¬Rejects data p
    · obtain ⟨x, hx⟩ := primitiveArgument_reads.mpr hread
      have hrest : (∃ text, (do let xs ← ps.mapM (primitiveArgument data); pure (x :: xs) : Except Error (List Int32)) =
          .error (.panic text)) ↔ ∃ text, ps.mapM (primitiveArgument data) = .error (.panic text) := by
        cases ps.mapM (primitiveArgument data) <;> simp [bind, Except.bind, pure, Except.pure]
      rw [hx, ok_andThen, hrest, ih, List.takeWhile_cons_of_pos (by simpa using hread.2)]
      have hp : ¬8 ≤ p.toInt := by omega
      simp [hp]
    · obtain ⟨e, he⟩ : ∃ e, primitiveArgument data p = .error e := by
        cases harg : primitiveArgument data p with
        | ok x => exact absurd (primitiveArgument_reads.mp ⟨x, harg⟩) hread
        | error e => exact ⟨e, rfl⟩
      have hpanics : (∃ text, e = .panic text) ↔ 8 ≤ p.toInt := by
        refine Iff.trans ?_ (@primitiveArgument_panics data p)
        simp [he]
      rw [he, error_andThen]
      simp only [Except.error.injEq, hpanics]
      by_cases hp : 8 ≤ p.toInt
      · have hnot : ¬Rejects data p := by
          rintro (hlow | ⟨i, hi, -⟩) <;> omega
        simp [hp, hnot]
      · have hrejects : Rejects data p := by
          by_contra hnot
          exact hread ⟨by omega, hnot⟩
        simp [hp, hrejects]

/-- The handler does not panic on a record, whatever it did before. -/
def InBounds (env : Env) (task : ResolvedTask) (data : CallResult) : Prop :=
  ∀ (s t : Session Unit CallResult) (text : String), (onItem env task data).run s ≠ .error (.panic text) t

/-- When the arguments are logged, those before the first rejected one have registers. -/
def HasRegisters (task : ResolvedTask) (data : CallResult) : Prop :=
  ∀ config atomId, task.task.statsdLoggingConfig = some config → config.atomId = some atomId →
    0 ≤ atomId.toInt → atomId.toInt < 2 ^ 32 →
      ∀ p ∈ config.primitiveArgumentPositions.takeWhile fun p => ¬Rejects data p, p.toInt < 8

theorem inBounds_iff {env : Env} {task : ResolvedTask} {data : CallResult} :
    InBounds env task data ↔ HasRegisters task data := by
  have hpanics {config : StatsdLoggingConfig} := @mapM_primitiveArgument_panics data config.primitiveArgumentPositions
  constructor
  · intro hbounds config atomId hconfig hatom hlow hhigh p hp
    by_contra hbig
    obtain ⟨text, htext⟩ := hpanics.mpr ⟨p, hp, by omega⟩
    have hid : tryU32 atomId.toInt = .ok (UInt32.ofNat atomId.toInt.toNat) := if_pos ⟨hlow, hhigh⟩
    refine hbounds ⟨(), [], []⟩ ⟨(), [], []⟩ text ?_
    rw [onItem, hconfig]
    dsimp only
    rw [run_lift_bind_of_ok (okOr_eq_ok.mpr hatom), run_lift_bind_of_ok hid, bind_lift_eq_error]
    exact Or.inl ⟨htext, rfl⟩
  · intro hregs s t text herror
    cases hconfig : task.task.statsdLoggingConfig with
    | none =>
      rw [onItem, hconfig] at herror
      cases herror
    | some config =>
      rw [onItem, hconfig] at herror
      rcases bind_lift_eq_error.mp herror with ⟨hatom, -⟩ | ⟨atomId, hatom, herror⟩
      · cases hopt : config.atomId <;> rw [hopt] at hatom <;> cases hatom
      · rcases bind_lift_eq_error.mp herror with ⟨hid, -⟩ | ⟨id, hid, herror⟩
        · rw [tryU32] at hid
          split at hid <;> cases hid
        · rcases bind_lift_eq_error.mp herror with ⟨hargs, -⟩ | ⟨args, -, herror⟩
          · obtain ⟨p, hp, hbig⟩ := hpanics.mp ⟨text, hargs⟩
            have hrange : 0 ≤ atomId.toInt ∧ atomId.toInt < 2 ^ 32 := by
              rw [tryU32] at hid
              split at hid
              · assumption
              · cases hid
            have := hregs config atomId hconfig (okOr_eq_ok.mp hatom) hrange.1 hrange.2 p hp
            omega
          · cases herror

end CallResultHandler

/-! ### Both -/

/-- Neither the handler nor the program leaves the array, and no position overflows. -/
def RegistersInBounds (env : Env) (task : ResolvedTask) (data : CallResult) (ctx : PtRegsX86Supported)
    (stack : CallResult) (slot : Option CallResult) : Prop :=
  CallResultHandler.InBounds env task data ∧ (callDetail ctx stack slot).2 = []

/-- The program stores the eleventh register behind the array in every run; the handler stays inside exactly when
    the positions that it looks up have registers. -/
theorem registersInBounds_never (env : Env) (task : ResolvedTask) (data : CallResult) (ctx : PtRegsX86Supported)
    (stack : CallResult) (slot : Option CallResult) :
    ¬RegistersInBounds env task data ctx stack slot ∧ (callDetail ctx stack slot).2 = [10] ∧
      (CallResultHandler.InBounds env task data ↔ CallResultHandler.HasRegisters task data) := by
  have hstores : (callDetail ctx stack slot).2 = [10] := by rw [callDetail_eq]
  refine ⟨?_, hstores, CallResultHandler.inBounds_iff⟩
  rintro ⟨-, hinside⟩
  rw [hstores] at hinside
  cases hinside

/-- A config that logs the ninth argument of a method. -/
def ninthArgument : UprobestatsConfig where
  tasks := [{
    targetProcessName := some "system_server"
    durationSeconds := some 1
    targetProcessSelection := some 1
    statsdLoggingConfig := some { atomId := some 915, primitiveArgumentPositions := [8] } }]

/-- The config is accepted, and the handler panics on the first record; the program had left its array before. -/
theorem not_registersInBounds_of_ninthArgument :
    (∃ task w, (resolveSingleTask (quietDevice ninthArgument) ninthArgument).run { interfaces := .empty } = .ok task w ∧
      (CallResultHandler.onItem quietEnv task (argumentRecord fun _ => 7)).run { handler := () } =
        .error (.panic "index out of bounds") { handler := () }) ∧
      (callDetail ⟨fun _ => 7, 0⟩ (argumentRecord fun _ => 0) (some (argumentRecord fun _ => 0))).2 = [10] :=
  ⟨⟨_, _, rfl, rfl⟩, rfl⟩

end UprobeStats
