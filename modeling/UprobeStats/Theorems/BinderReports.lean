import UprobeStats.Theorems.BinderArmed
import UprobeStats.Theorems.Registry

/-! Binder transactions from the filters of a task to the atoms: while the filters of a task stand in the map, each
    transaction that one of them lists and that finds room in the ring is reported once, with the uid of its caller. -/

namespace UprobeStats
open Rust Effect Text

/-! ### The handler -/

theorem binderTransactionHandler_logs {env : Env} : binderTransactionHandler.Logs env Session.statsEvents
    (fun _ item => (bytesAsStr item.interfaceDescriptor).isOk) fun _ item => [⟨915, [.int32 item.callingUid]⟩] where
  onItem_ok task item s htakes := by
    obtain ⟨name, hname⟩ := isOk_iff.mp htakes
    exact ⟨_, run_lift_bind_of_ok hname, List.filterMap_append⟩
  onItem_error task item s htakes := by
    cases hname : bytesAsStr item.interfaceDescriptor with
    | error e => exact ⟨e, bind_lift_eq_error.mpr (.inl ⟨hname, rfl⟩)⟩
    | ok name =>
      rw [hname] at htakes
      cases htakes
  onFinished _ := rfl
  logged_handed _ _ := rfl
  logged_poll s _ _ := List.filterMap_append.trans (List.append_nil _)
  logged_start := rfl

/-! ### The program -/

/-- A transaction at the program, and whether its record finds room in the ring. -/
structure TransactionFiring where
  ctx : PtRegs
  mem : Memory
  ktimeNs : UInt64
  slot : BinderTransaction
  reserved : Bool
  name : String
  code : UInt32
  plain : PlainName name
  transaction : Transaction ctx mem name code

namespace TransactionFiring

def records (interfaces : InterfacesMap) (f : TransactionFiring) : List BinderTransaction :=
  execTransactInternal f.ctx f.mem f.ktimeNs (if f.reserved then some f.slot else none) interfaces

/-- A filter of the task lists the transaction, and its record finds room. -/
def reported (task : Task) (f : TransactionFiring) : Bool :=
  f.reserved && task.armedFilters.any fun filter => decide (filter.interfaceName = some f.name ∧ filter.Lists f.code)

def record (f : TransactionFiring) : BinderTransaction := transactionEvent f.ctx f.name f.code f.ktimeNs

def report (f : TransactionFiring) : StatsEvent := ⟨915, [.int32 (f.ctx.regs 6).toUInt32.toInt32]⟩

end TransactionFiring

section Reports
variable {dev : Device} {task : ResolvedTask} {ps : List ResolvedProbe} {w w' : World} {interfaces : InterfacesMap}

/-- The map holds what the filters of the task store, and nothing else. -/
def HoldsFilters (task : Task) (interfaces : InterfacesMap) : Prop :=
  ∀ k v, interfaces.lookup k = some v ↔ ∃ filter ∈ task.armedFilters, filter.stored? = some (k, v)

def PlainFilters (task : Task) : Prop :=
  ∀ filter ∈ task.armedFilters, ∀ name, filter.interfaceName = some name → PlainName name

theorem HoldsFilters.lookup_toCKey (hholds : HoldsFilters task.task interfaces) (hplain : PlainFilters task.task)
    {name : String} (hname : PlainName name) {v : BinderCodesBpfMapValue} :
    interfaces.lookup (toCKey name) = some v ↔ ∃ filter ∈ task.task.armedFilters,
      filter.interfaceName = some name ∧ toCValue (filter.methodIds.map (·.toUInt64)) = v := by
  rw [hholds]
  refine exists_congr fun filter => and_congr_right fun hfilter => ?_
  rw [BinderTransactionFilter.stored?, Option.map_eq_some_iff]
  constructor
  · rintro ⟨name', hname', heq⟩
    obtain ⟨hkey, hvalue⟩ := Prod.mk.inj heq
    obtain rfl := ((hplain filter hfilter name' hname').toCKey_inj hname).mp hkey
    exact ⟨hname', hvalue⟩
  · rintro ⟨hname', hvalue⟩
    exact ⟨name, hname', by rw [hvalue]⟩

theorem records_eq (hholds : HoldsFilters task.task interfaces) (hplain : PlainFilters task.task)
    (f : TransactionFiring) :
    f.records interfaces = if f.reported task.task then [f.record] else [] := by
  have hlookup {v} := hholds.lookup_toCKey hplain f.plain (v := v)
  have hlisted : (∃ filter ∈ task.task.armedFilters, filter.interfaceName = some f.name ∧ filter.Lists f.code) ↔
      ∃ v, interfaces.lookup (toCKey f.name) = some v ∧ f.code.toUInt64 ∈ (List.ofFn v.codes).takeWhile (· ≠ 0) := by
    constructor
    · rintro ⟨filter, hfilter, hname, hlists⟩
      exact ⟨_, hlookup.mpr ⟨filter, hfilter, hname, rfl⟩, lists_iff.mp hlists⟩
    · rintro ⟨v, hv, hmem⟩
      obtain ⟨filter, hfilter, hname, rfl⟩ := hlookup.mp hv
      exact ⟨filter, hfilter, hname, lists_iff.mpr hmem⟩
  rw [TransactionFiring.records]
  cases hreserved : f.reserved with
  | false =>
    have hreported : f.reported task.task = false := by rw [TransactionFiring.reported, hreserved, Bool.false_and]
    rw [hreported, execTransactInternal]
    split
    · rfl
    · rw [matchCodes_eq]
      split <;> rfl
  | true =>
    have hreported : f.reported task.task = true ↔
        ∃ filter ∈ task.task.armedFilters, filter.interfaceName = some f.name ∧ filter.Lists f.code := by
      rw [TransactionFiring.reported, hreserved, Bool.true_and, List.any_eq_true]
      simp only [decide_eq_true_iff]
    rw [if_pos rfl, execTransactInternal_eq f.transaction f.plain]
    simp only [hreported, hlisted]
    cases hv : interfaces.lookup (toCKey f.name) with
    | none => simp
    | some v => simp [TransactionFiring.record]

theorem bytesAsStr_record (f : TransactionFiring) : bytesAsStr f.record.interfaceDescriptor = .ok f.name := by
  have hbytes := toCKey_of_short f.plain.short
  have hzeros : 128 - (utf8 f.name).length = 127 - (utf8 f.name).length + 1 := by
    have := f.plain.short
    omega
  rw [hzeros, List.replicate_succ] at hbytes
  refine bytesAsStr_eq_ok.mpr ?_
  show untilNul (toCKey f.name).interfaceDescriptor.bytes = _
  rw [hbytes, untilNul_append_zero f.plain.nulFree]

theorem records_resolved (hempty : w.interfaces = .empty) (h : (resolveProbes dev task).run w = .ok ps w')
    (hplain : PlainFilters task.task) (firings : List TransactionFiring) :
    firings.flatMap (·.records w'.interfaces) =
      (firings.filter (·.reported task.task)).map (·.record) := by
  have hholds : HoldsFilters task.task w'.interfaces := fun k v => lookup_resolveProbes hempty h
  exact flatMap_records (records_eq hholds hplain) firings

/-- From the filters of a task to the atoms. Once the probes of the task are resolved on an empty map, the thread that
    polls the ring reports each transaction that a filter lists and that found room, once and in order, with the uid of
    its caller, and no other; and it never fails. -/
theorem transactions_reported (hempty : w.interfaces = .empty) (h : (resolveProbes dev task).run w = .ok ps w')
    (hplain : PlainFilters task.task) (env : Env) {duration : Nat} {turns : List (Turn TransactionFiring)}
    (hfits : ∀ x ∈ beforeExpiry duration turns, duration - x.elapsed < 2 ^ 31) :
    let firings := (beforeExpiry duration turns).flatMap (·.items)
    let result := (pollLoopGeneric binderTransactionHandler env task binderTransactionHandler.mapPath duration
      ((recordedBy (·.records w'.interfaces) turns).map Turn.round)).run { handler := () }
    (after result).statsEvents = (firings.filter (·.reported task.task)).map (·.report) ∧ isOk result = true := by
  obtain ⟨hlogged, hok⟩ := logs_recordedBy (@binderTransactionHandler_logs env) task hfits
  rw [records_resolved hempty h hplain] at hlogged hok
  have htakes : ∀ item ∈ (((beforeExpiry duration turns).flatMap (·.items)).filter (·.reported task.task)).map (·.record),
      (bytesAsStr item.interfaceDescriptor).isOk = true :=
    List.forall_mem_map.mpr fun f _ => isOk_iff.mpr ⟨_, bytesAsStr_record f⟩
  refine ⟨?_, hok.trans (List.all_eq_true.mpr htakes)⟩
  rw [List.takeWhile_eq_self_iff.mpr htakes, List.flatMap_map] at hlogged
  exact hlogged.trans List.map_eq_flatMap.symm

end Reports

/-! ### Three transactions -/

def firingOfA (code : UInt32) (reserved : Bool) : TransactionFiring where
  ctx := transacting code
  mem := binderMemory "a"
  ktimeNs := 0
  slot := freshSlot
  reserved := reserved
  name := "a"
  code := code
  plain := plainName_a
  transaction := transaction_a code

/-- A transaction that is listed, one that is not and one that finds no room. -/
theorem transactions_reported_of_three : ∃ ps w',
    (resolveProbes (quietDevice {}) (taskOf [binderProbe "a" [3, 7]])).run { interfaces := .empty } = .ok ps w' ∧
      (after ((pollLoopGeneric binderTransactionHandler quietEnv (taskOf [binderProbe "a" [3, 7]])
        binderTransactionHandler.mapPath 1000 ((recordedBy (·.records w'.interfaces)
          [⟨0, [firingOfA 7 true, firingOfA 8 true, firingOfA 3 false]⟩]).map Turn.round)).run
            { handler := () })).statsEvents = [⟨915, [.int32 0]⟩] := by
  have hok : isOk ((resolveProbes (quietDevice {}) (taskOf [binderProbe "a" [3, 7]])).run
    { interfaces := .empty }) = true := by decide +kernel
  obtain ⟨ps, w', hrun⟩ := exists_of_isOk hok
  refine ⟨ps, w', hrun, ?_⟩
  have hplain : PlainFilters (taskOf [binderProbe "a" [3, 7]]).task := by
    intro filter hfilter name hname
    have hfilters : (taskOf [binderProbe "a" [3, 7]]).task.armedFilters = [⟨some "a", [3, 7]⟩] := by decide +kernel
    rw [hfilters, List.mem_singleton] at hfilter
    subst hfilter
    obtain rfl := Option.some.inj hname
    exact plainName_a
  have hreported := @transactions_reported _ _ _ _ _ rfl hrun hplain quietEnv 1000
    [⟨0, [firingOfA 7 true, firingOfA 8 true, firingOfA 3 false]⟩] (by decide)
  exact hreported.1.trans (by decide +kernel)

end UprobeStats
