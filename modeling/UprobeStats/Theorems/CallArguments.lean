import UprobeStats.GenericInstrumentation
import UprobeStats.Theorems.PollLoop

/-! The arguments that are logged. A register holds a primitive without its sign, so the handler in Rust, which
    checks that it fits, fails on a negative one; `doPoll` in C++ cuts it down and gets it right. -/

namespace UprobeStats
open Rust Effect

/-- The event of a record with arguments at some positions. -/
def argumentsEvent (id : UInt32) (positions : List Int32) (v : Int32 → Int32) : StatsEvent :=
  ⟨id, positions.map fun p => .int32 (v p)⟩

namespace CallResultHandler

/-- The register of each position holds a 32-bit primitive, with zeros above it. -/
def Holds (data : CallResult) (positions : List Int32) (v : Int32 → Int32) : Prop :=
  ∀ p ∈ positions, data.register (p.toInt + 2).toNat = .ok (v p).toUInt32.toUInt64

section Arguments
variable {data : CallResult} {positions : List Int32} {v : Int32 → Int32} {p : Int32}

/-- What a register says of a primitive: a negative one reads 2^32 higher. -/
theorem toNat_register (x : Int32) :
    (x.toUInt32.toUInt64.toNat : Int) = if 0 ≤ x.toInt then x.toInt else x.toInt + 2 ^ 32 := by
  have hnat : x.toUInt32.toUInt64.toNat = x.toBitVec.toNat := x.toUInt32.toNat_toUInt64
  have hint : x.toInt = x.toBitVec.toInt := rfl
  have hlt := x.toBitVec.isLt
  rw [hnat, hint, BitVec.toInt_eq_toNat_cond]
  split <;> split <;> omega

theorem primitiveArgument_eq_ok (hrange : 0 ≤ p.toInt ∧ p.toInt ≤ 7)
    (hreg : data.register (p.toInt + 2).toNat = .ok (v p).toUInt32.toUInt64) {x : Int32} :
    primitiveArgument data p = .ok x ↔ 0 ≤ (v p).toInt ∧ x = v p := by
  have hoffset : javaArgumentRegisterOffset.toInt = 2 := by decide
  have hvalue := toNat_register (v p)
  have hlt := (v p).toInt_lt
  rw [primitiveArgument, andThen_eq_ok]
  constructor
  · rintro ⟨index, hindex, h⟩
    obtain ⟨i, hi, h⟩ := andThen_eq_ok.mp h
    obtain ⟨register, hregister, h⟩ := andThen_eq_ok.mp h
    have hadd := addI32_eq_ok.mp hindex
    have hnat : i.toNat = (p.toInt + 2).toNat := by
      have := tryU64_eq_ok.mp hi
      omega
    rw [hnat, hreg] at hregister
    cases hregister
    have hx := tryI32_eq_ok.mp h
    rw [hvalue] at hx
    have hmax := x.toInt_lt
    by_cases hneg : 0 ≤ (v p).toInt
    · rw [if_pos hneg] at hx
      exact ⟨hneg, Int32.toInt_inj.mp hx⟩
    · rw [if_neg hneg] at hx
      have := (v p).le_toInt
      omega
  · rintro ⟨hneg, rfl⟩
    rw [if_pos hneg] at hvalue
    have hsum : (Int32.ofInt (2 + p.toInt)).toInt = 2 + p.toInt :=
      Int32.toInt_ofInt_of_le (by omega) (by omega)
    refine ⟨Int32.ofInt (2 + p.toInt), addI32_eq_ok.mpr (by rw [hsum, hoffset]), andThen_eq_ok.mpr ?_⟩
    refine ⟨UInt64.ofNat (p.toInt + 2).toNat, tryU64_eq_ok.mpr ?_, andThen_eq_ok.mpr ?_⟩
    · rw [hsum, UInt64.toNat_ofNat', Nat.mod_eq_of_lt (by omega)]
      omega
    · refine ⟨(v p).toUInt32.toUInt64, ?_, tryI32_eq_ok.mpr hvalue.symm⟩
      rw [UInt64.toNat_ofNat', Nat.mod_eq_of_lt (by omega), hreg]

/-- All arguments are read when none of them is negative. -/
theorem mapM_primitiveArgument (hrange : ∀ p ∈ positions, 0 ≤ p.toInt ∧ p.toInt ≤ 7) (hholds : Holds data positions v)
    {xs : List Int32} :
    positions.mapM (primitiveArgument data) = .ok xs ↔ (∀ p ∈ positions, 0 ≤ (v p).toInt) ∧ xs = positions.map v := by
  rw [mapM_eq_ok]
  induction positions generalizing xs with
  | nil => simp
  | cons p ps ih =>
    obtain ⟨hp, hps⟩ := List.forall_mem_cons.mp hrange
    obtain ⟨hreg, hregs⟩ := List.forall_mem_cons.mp hholds
    rw [List.forall₂_cons_left_iff, List.forall_mem_cons]
    constructor
    · rintro ⟨x, xs, hx, hrest, rfl⟩
      obtain ⟨hneg, rfl⟩ := (primitiveArgument_eq_ok hp hreg).mp hx
      obtain ⟨hnegs, rfl⟩ := (ih hps hregs).mp hrest
      exact ⟨⟨hneg, hnegs⟩, rfl⟩
    · rintro ⟨⟨hneg, hnegs⟩, rfl⟩
      exact ⟨v p, ps.map v, (primitiveArgument_eq_ok hp hreg).mpr ⟨hneg, rfl⟩, (ih hps hregs).mpr ⟨hnegs, rfl⟩, rfl⟩

theorem toUInt32_eq_of_valid {atomId : Int64} {id : UInt32} (hid : (id.toNat : Int) = atomId.toInt) :
    atomId.toInt32.toUInt32 = id := by
  have hnat : atomId.toInt32.toUInt32.toNat = (atomId.toBitVec.signExtend 32).toNat := rfl
  have hint : atomId.toInt = atomId.toBitVec.toInt := rfl
  have hlt := id.toNat_lt
  rw [hint, BitVec.toInt_eq_toNat_cond] at hid
  refine UInt32.toNat_inj.mp ?_
  rw [hnat, BitVec.signExtend_eq_setWidth_of_le _ (by omega), BitVec.toNat_setWidth]
  split at hid <;> omega

/-- The C++ loop writes the primitives themselves. -/
theorem cxx_callResultEvent {taskConfig : Task} {config : StatsdLoggingConfig} {atomId : Int64} {id : UInt32}
    (beyond : Int → UInt64) (hconfig : taskConfig.statsdLoggingConfig = some config)
    (hatom : config.atomId = some atomId) (hid : (id.toNat : Int) = atomId.toInt)
    (hrange : ∀ p ∈ config.primitiveArgumentPositions, 0 ≤ p.toInt ∧ p.toInt ≤ 7)
    (hholds : Holds data config.primitiveArgumentPositions v) :
    Cxx.callResultEvent beyond taskConfig data =
      some (argumentsEvent id config.primitiveArgumentPositions v) := by
  rw [Cxx.callResultEvent, hconfig, Option.map_some, hatom]
  refine congrArg some (congrArg₂ StatsEvent.mk (toUInt32_eq_of_valid hid) (List.map_congr_left fun p hp => ?_))
  obtain ⟨hlow, hhigh⟩ := hrange p hp
  have hreg := hholds p hp
  have hindex : 0 ≤ p.toInt + Cxx.kJavaArgumentRegisterOffset ∧ p.toInt + Cxx.kJavaArgumentRegisterOffset < 10 := by
    rw [Cxx.kJavaArgumentRegisterOffset]
    omega
  rw [CallResult.register, dif_pos (by omega)] at hreg
  dsimp only
  have hregs : data.regs ⟨(p.toInt + Cxx.kJavaArgumentRegisterOffset).toNat, by omega⟩ =
      (v p).toUInt32.toUInt64 := Except.ok.inj hreg
  rw [dif_pos hindex, hregs]
  simp

end Arguments
end CallResultHandler

/-- With a valid atom id and positions that have registers, the handler writes the arguments, as the C++ loop
    does, exactly when none of them is negative. -/
theorem argumentsLogged_iff_nonneg {env : Env} {task : ResolvedTask} {data : CallResult} {config : StatsdLoggingConfig}
    {atomId : Int64} {id : UInt32} {v : Int32 → Int32} (hconfig : task.task.statsdLoggingConfig = some config)
    (hatom : config.atomId = some atomId) (hid : (id.toNat : Int) = atomId.toInt)
    (hrange : ∀ p ∈ config.primitiveArgumentPositions, 0 ≤ p.toInt ∧ p.toInt ≤ 7)
    (hholds : CallResultHandler.Holds data config.primitiveArgumentPositions v) (beyond : Int → UInt64)
    (s : Session Unit CallResult) :
    (∃ t, (CallResultHandler.onItem env task data).run s = .ok ⟨⟩ t ∧
      t.calls = s.calls ++ [.statsEvent (argumentsEvent id config.primitiveArgumentPositions v)] ∧
      Cxx.callResultEvent beyond task.task data =
        some (argumentsEvent id config.primitiveArgumentPositions v)) ↔
      ∀ p ∈ config.primitiveArgumentPositions, 0 ≤ (v p).toInt := by
  have hu32 : tryU32 atomId.toInt = .ok id := by
    have hlt := id.toNat_lt
    rw [tryU32, if_pos (by omega), ← hid, Int.toNat_natCast, UInt32.ofNat_toNat]
  have hrun : (CallResultHandler.onItem env task data).run s = ((do
      let primitiveArguments ←
        lift (config.primitiveArgumentPositions.mapM (CallResultHandler.primitiveArgument data))
      writeEvent ⟨id, primitiveArguments.map .int32⟩ : Handling Unit CallResult PUnit)).run s := by
    rw [CallResultHandler.onItem, hconfig]
    dsimp only
    rw [run_lift_bind_of_ok (okOr_eq_ok.mpr hatom), run_lift_bind_of_ok hu32]
  have hargs {xs : List Int32} := @CallResultHandler.mapM_primitiveArgument data _ v hrange hholds xs
  constructor
  · rintro ⟨t, hok, -, -⟩
    rw [hrun] at hok
    obtain ⟨xs, hxs, -⟩ := bind_lift_eq_ok.mp hok
    exact (hargs.mp hxs).1
  · intro hnonneg
    refine ⟨_, hrun.trans (run_lift_bind_of_ok (hargs.mpr ⟨hnonneg, rfl⟩)), ?_, ?_⟩
    · rw [argumentsEvent, ← Function.comp_def, ← List.map_map]
    · exact CallResultHandler.cxx_callResultEvent beyond hconfig hatom hid hrange hholds

/-! ### Records with three arguments and with one -/

def argumentTask (positions : List Int32) : ResolvedTask :=
  { someTask with
    task := { statsdLoggingConfig := some { atomId := some 915, primitiveArgumentPositions := positions } } }

def argumentRecord (v : Int32 → Int32) : CallResult :=
  ⟨0, fun i => (v (Int32.ofInt ((i : Nat) - 2 : Int))).toUInt32.toUInt64⟩

theorem holds_argumentRecord {v : Int32 → Int32} {positions : List Int32} (h : positions ⊆ [3, 0, 7]) :
    CallResultHandler.Holds (argumentRecord v) positions v := by
  intro p hp
  have hp := h hp
  simp only [List.mem_cons, List.not_mem_nil, or_false] at hp
  rcases hp with rfl | rfl | rfl <;> rfl

theorem argumentsLogged_of_three :
    ∃ t, (CallResultHandler.onItem quietEnv (argumentTask [3, 0, 7]) (argumentRecord fun p => 100 * p + 1)).run
        { handler := () } = .ok ⟨⟩ t ∧
      t.calls = [] ++ [.statsEvent (argumentsEvent 915 [3, 0, 7] fun p => 100 * p + 1)] ∧
      Cxx.callResultEvent (fun _ => 0) (argumentTask [3, 0, 7]).task (argumentRecord fun p => 100 * p + 1) =
        some (argumentsEvent 915 [3, 0, 7] fun p => 100 * p + 1) := by
  have hconfig : (argumentTask [3, 0, 7]).task.statsdLoggingConfig = some ⟨some 915, [3, 0, 7]⟩ := rfl
  have hrange : ∀ p ∈ [(3 : Int32), 0, 7], 0 ≤ p.toInt ∧ p.toInt ≤ 7 := by
    rw [List.forall_mem_cons, List.forall_mem_cons, List.forall_mem_singleton]
    decide
  have hnonneg : ∀ p ∈ [(3 : Int32), 0, 7], 0 ≤ (100 * p + 1).toInt := by
    rw [List.forall_mem_cons, List.forall_mem_cons, List.forall_mem_singleton]
    decide
  exact (argumentsLogged_iff_nonneg hconfig rfl rfl hrange (holds_argumentRecord (List.Subset.refl _)) (fun _ => 0)
    { handler := () }).mpr hnonneg

/-- The handler fails on -1, which the C++ loop logs. -/
theorem not_argumentsLogged_of_negative :
    CallResultHandler.Holds (argumentRecord fun _ => -1) [0] (fun _ => -1) ∧
      (CallResultHandler.onItem quietEnv (argumentTask [0]) (argumentRecord fun _ => -1)).run { handler := () } =
        .error .tryFromInt { handler := () } ∧
      Cxx.callResultEvent (fun _ => 0) (argumentTask [0]).task (argumentRecord fun _ => -1) =
        some (argumentsEvent 915 [0] fun _ => -1) :=
  ⟨holds_argumentRecord (by decide), rfl, by decide⟩

end UprobeStats
