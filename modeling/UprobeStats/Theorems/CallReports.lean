import UprobeStats.Theorems.ArgumentRegisters
import UprobeStats.Theorems.Ports

/-! Calls of any method, from the probe to the log: what the two programs log of the records that the programs of
    `GenericInstrumentation.c` write at the calls they are attached to. -/

namespace UprobeStats
open Rust Effect

/-! ### Timestamps -/

inductive TimestampProgram where
  | callTimestamp1
  | callTimestamp2
  | callTimestamp3
  | callTimestamp4
  | callTimestamp5
  deriving DecidableEq, Repr

namespace TimestampProgram

def run : TimestampProgram → UInt64 → Option CallTimestamp → Option CallTimestamp
  | .callTimestamp1 => UprobeStats.callTimestamp1
  | .callTimestamp2 => UprobeStats.callTimestamp2
  | .callTimestamp3 => UprobeStats.callTimestamp3
  | .callTimestamp4 => UprobeStats.callTimestamp4
  | .callTimestamp5 => UprobeStats.callTimestamp5

def number : TimestampProgram → UInt32
  | .callTimestamp1 => 1
  | .callTimestamp2 => 2
  | .callTimestamp3 => 3
  | .callTimestamp4 => 4
  | .callTimestamp5 => 5

theorem run_eq (p : TimestampProgram) (ktimeNs : UInt64) (slot : Option CallTimestamp) :
    p.run ktimeNs slot = slot.map fun _ => ⟨p.number, ktimeNs⟩ := by
  cases p <;> rfl

theorem number_lt (p : TimestampProgram) : p.number.toNat < 2 ^ 31 := by
  cases p <;> decide

end TimestampProgram

/-- A call at one of the programs, at a time; there may be no room for its record. -/
structure TimestampFiring where
  program : TimestampProgram
  ktimeNs : UInt64
  slot : Option CallTimestamp

namespace TimestampFiring

def records (f : TimestampFiring) : List CallTimestamp := (f.program.run f.ktimeNs f.slot).toList

def record (f : TimestampFiring) : CallTimestamp := ⟨f.program.number, f.ktimeNs⟩

def content (id : UInt32) (f : TimestampFiring) : StatsEvent :=
  ⟨id, [.int32 f.program.number.toInt32, .int64 f.ktimeNs.toInt64]⟩

theorem records_eq (f : TimestampFiring) : f.records = if f.slot.isSome then [f.record] else [] := by
  rw [records, f.program.run_eq]
  cases f.slot <;> rfl

end TimestampFiring

/-! ### Arguments -/

/-- A call at `call_detail`, with what is on the stack of the program. -/
structure DetailFiring where
  ctx : PtRegsX86Supported
  stack : CallResult
  slot : Option CallResult

namespace DetailFiring

def records (f : DetailFiring) : List CallResult := (callDetail f.ctx f.stack f.slot).1.toList

def record (f : DetailFiring) : CallResult := ⟨f.ctx.pc, fun i => f.ctx.regs (i.castLE (by decide))⟩

/-- The register of the argument at a position. -/
def argument (f : DetailFiring) (position : Int32) : UInt64 := f.ctx.regs (Fin.ofNat 16 (position.toInt + 2).toNat)

def content (id : UInt32) (positions : List Int32) (f : DetailFiring) : StatsEvent :=
  ⟨id, positions.map fun position => .int32 (f.argument position).toUInt32.toInt32⟩

/-- Each argument is a number that is not negative. -/
def argumentsFit (positions : List Int32) (f : DetailFiring) : Bool :=
  positions.all fun position => decide ((f.argument position).toNat < 2 ^ 31)

theorem records_eq (f : DetailFiring) : f.records = if f.slot.isSome then [f.record] else [] := by
  rw [records, callDetail_eq]
  cases f.slot <;> rfl

/-- The position names a register that the program records. -/
def Recorded (position : Int32) : Prop := 0 ≤ position.toInt + 2 ∧ position.toInt + 2 < 10

theorem register_record {position : Int32} (f : DetailFiring) (hlt : (position.toInt + 2).toNat < 10) :
    f.record.regs ⟨(position.toInt + 2).toNat, hlt⟩ = f.argument position := by
  refine congrArg f.ctx.regs (Fin.ext ?_)
  rw [Fin.val_castLE, Fin.val_ofNat, Nat.mod_eq_of_lt (by omega)]

theorem argument?_record {position : Int32} (h : Recorded position) (f : DetailFiring) :
    f.record.argument? position = some (f.argument position) :=
  (dif_pos h).trans (congrArg some (register_record f (toNat_lt_ten h)))

theorem fits_record {c : StatsdLoggingConfig} (h : ∀ p ∈ c.primitiveArgumentPositions, Recorded p) (f : DetailFiring) :
    f.record.fits c = f.argumentsFit c.primitiveArgumentPositions := by
  rw [Bool.eq_iff_iff, CallResult.fits, argumentsFit, List.all_eq_true, List.all_eq_true]
  refine forall₂_congr fun position hposition => ?_
  rw [argument?_record (h position hposition), Option.any_some]

theorem cxx_callResultEvent_record {taskConfig : Task} {c : StatsdLoggingConfig} {id : UInt32}
    (hconfig : taskConfig.statsdLoggingConfig = some c) (hid : (c.atomId.getD 0).toInt32.toUInt32 = id)
    (h : ∀ p ∈ c.primitiveArgumentPositions, Recorded p) (beyond : Int → UInt64) (f : DetailFiring) :
    Cxx.callResultEvent beyond taskConfig f.record = some (f.content id c.primitiveArgumentPositions) := by
  rw [Cxx.callResultEvent, hconfig, Option.map_some, hid, content]
  refine congrArg (fun values => some (StatsEvent.mk id values)) (List.map_congr_left fun position hposition => ?_)
  have hposition := h position hposition
  exact congrArg (fun register : UInt64 => StatsValue.int32 register.toUInt32.toInt32)
    ((dif_pos hposition).trans (register_record f (toNat_lt_ten hposition)))

end DetailFiring

/-- Under a valid atom id the two programs log each call that found room, in order: its number and its time, or its
    arguments as the registers of the call have them. The monitors in Rust end at the first time from 2^63 on and at
    the first argument from 2^31 on; the threads in C++ log all of them. -/
theorem calls_logged {task : ResolvedTask} {c : StatsdLoggingConfig} {atomId : Int64} {id : UInt32}
    (hconfig : task.task.statsdLoggingConfig = some c) (hatom : c.atomId = some atomId)
    (hid : (id.toNat : Int) = atomId.toInt) (env : Env) (duration : Nat) :
    (∀ turns : List (Turn TimestampFiring), (∀ x ∈ beforeExpiry duration turns, duration - x.elapsed < 2 ^ 31) →
      let h := callTimestampHandler
      let written := recordedBy TimestampFiring.records turns
      let firings := ((beforeExpiry duration turns).flatMap (·.items)).filter (·.slot.isSome)
      let result := (pollLoopGeneric h env task h.mapPath duration (written.map Turn.round)).run { handler := () }
      (after result).statsEvents =
        (firings.takeWhile fun f => decide (f.ktimeNs.toNat < 2 ^ 63)).map (·.content id) ∧
      (isOk result = true ↔ ∀ f ∈ firings, f.ktimeNs.toNat < 2 ^ 63) ∧
      ∀ cxxTurns, Cxx.polledValues h.mapPath (Cxx.durationNanos task.task) 0 cxxTurns =
          (beforeExpiry duration written).flatMap (·.items) →
        Cxx.threadEvents Cxx.callTimestampEvent h.mapPath task.task cxxTurns = firings.map (·.content id)) ∧
    ((∀ p ∈ c.primitiveArgumentPositions, DetailFiring.Recorded p) →
      ∀ turns : List (Turn DetailFiring), (∀ x ∈ beforeExpiry duration turns, duration - x.elapsed < 2 ^ 31) →
      let h := callResultHandler
      let positions := c.primitiveArgumentPositions
      let written := recordedBy DetailFiring.records turns
      let firings := ((beforeExpiry duration turns).flatMap (·.items)).filter (·.slot.isSome)
      let result := (pollLoopGeneric h env task h.mapPath duration (written.map Turn.round)).run { handler := () }
      (after result).statsEvents = (firings.takeWhile (·.argumentsFit positions)).map (·.content id positions) ∧
      (isOk result = true ↔ ∀ f ∈ firings, f.argumentsFit positions = true) ∧
      ∀ beyond cxxTurns, Cxx.polledValues h.mapPath (Cxx.durationNanos task.task) 0 cxxTurns =
          (beforeExpiry duration written).flatMap (·.items) →
        Cxx.threadEvents (Cxx.callResultEvent beyond) h.mapPath task.task cxxTurns =
          firings.map (·.content id positions)) := by
  have hcut := cxxAtomId_of_valid hatom hid
  have htakes {T : Type} (fits : StatsdLoggingConfig → T → Bool) := takesRecord_of_valid hconfig hatom hid fits
  refine ⟨fun turns hfits => ?_, fun hpositions turns hfits => ?_⟩
  · have hfit (f : TimestampFiring) : takesRecord (fun c data => data.fits c) task.task f.record =
        decide (f.ktimeNs.toNat < 2 ^ 63) := by
      rw [htakes, CallTimestamp.fits, TimestampFiring.record, decide_eq_true f.program.number_lt, Bool.true_and]
    obtain ⟨hlogged, hok, hthread⟩ := logs_firings (@callTimestampHandler_logs env) TimestampFiring.records_eq hfit
      (·.content id) (fun f => by
        rw [Cxx.callTimestampEvent, hconfig, Option.map_some, hcut]
        rfl) hfits
    refine ⟨hlogged, hok.trans (forall₂_congr fun f _ => decide_eq_true_iff), fun cxxTurns hsame => ?_⟩
    rw [Cxx.threadEvents_eq]
    exact hthread cxxTurns hsame
  · have hlogs (beyond : Int → UInt64) := logs_firings (@callResultHandler_logs env beyond) DetailFiring.records_eq
      (fun f => (htakes _ f.record).trans (DetailFiring.fits_record hpositions f))
      (·.content id c.primitiveArgumentPositions)
      (DetailFiring.cxx_callResultEvent_record hconfig hcut hpositions beyond) hfits
    refine ⟨(hlogs fun _ => 0).1, (hlogs fun _ => 0).2.1, fun beyond cxxTurns hsame => ?_⟩
    rw [Cxx.threadEvents_eq]
    exact (hlogs beyond).2.2 cxxTurns hsame

def argumentOfOne : ResolvedTask :=
  { someTask with
    task := { statsdLoggingConfig := some { atomId := some 915, primitiveArgumentPositions := [0] },
              durationSeconds := some 1 } }

def timestampFiring (program : TimestampProgram) (ktimeNs : UInt64) (reserved : Bool) : TimestampFiring :=
  ⟨program, ktimeNs, if reserved then some ⟨0, 0⟩ else none⟩

def detailFiring (argument : UInt64) : DetailFiring :=
  ⟨⟨fun i => if i = 2 then argument else 0, 0⟩, ⟨0, fun _ => 0⟩, some ⟨0, fun _ => 0⟩⟩

/-- The second call finds no room; and of three calls with an argument of 7, minus one and 8, the monitor logs the
    first and the thread all. -/
theorem calls_logged_of_three :
    (after ((pollLoopGeneric callTimestampHandler quietEnv argumentOfOne callTimestampHandler.mapPath 1000
      ((recordedBy TimestampFiring.records [⟨0, [timestampFiring .callTimestamp1 10 true,
        timestampFiring .callTimestamp2 20 false, timestampFiring .callTimestamp5 30 true]⟩]).map Turn.round)).run
          { handler := () })).statsEvents = [⟨915, [.int32 1, .int64 10]⟩, ⟨915, [.int32 5, .int64 30]⟩] ∧
    (after ((pollLoopGeneric callResultHandler quietEnv argumentOfOne callResultHandler.mapPath 1000
      ((recordedBy DetailFiring.records [⟨0, [detailFiring 7, detailFiring 0xFFFFFFFF, detailFiring 8]⟩]).map
        Turn.round)).run { handler := () })).statsEvents = [⟨915, [.int32 7]⟩] ∧
    Cxx.threadEvents (Cxx.callResultEvent fun _ => 0) callResultHandler.mapPath argumentOfOne.task
        [⟨0, [(detailFiring 7).record, (detailFiring 0xFFFFFFFF).record, (detailFiring 8).record], 1⟩] =
      [⟨915, [.int32 7]⟩, ⟨915, [.int32 (-1)]⟩, ⟨915, [.int32 8]⟩] := by
  obtain ⟨htimestamps, harguments⟩ := @calls_logged argumentOfOne _ _ 915 rfl rfl (by decide) quietEnv 1000
  have hpositions : ∀ p ∈ [(0 : Int32)], DetailFiring.Recorded p := by simp [DetailFiring.Recorded]
  obtain ⟨hlogged, -, hthread⟩ := harguments hpositions
    [⟨0, [detailFiring 7, detailFiring 0xFFFFFFFF, detailFiring 8]⟩] (by decide)
  refine ⟨?_, hlogged.trans (by decide +kernel), (hthread _ _ ?_).trans (by decide +kernel)⟩
  · exact (htimestamps [⟨0, [timestampFiring .callTimestamp1 10 true, timestampFiring .callTimestamp2 20 false,
      timestampFiring .callTimestamp5 30 true]⟩] (by decide)).1.trans (by decide +kernel)
  · have hpolled : ((0 : Nat) : Int) < Cxx.durationNanos argumentOfOne.task ∧
        (Cxx.branch? callResultHandler.mapPath).isSome := by decide +kernel
    rw [Cxx.polledValues, if_pos hpolled, beforeExpiry_recordedBy, items_recordedBy,
      flatMap_records DetailFiring.records_eq]
    rfl

end UprobeStats
