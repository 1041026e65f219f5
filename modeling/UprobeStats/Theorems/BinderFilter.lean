import UprobeStats.Theorems.BinderMap
import UprobeStats.Theorems.JavaString

/-! Binder filters, from the config to the program. The resolver stores the first ten method ids of a filter
    under its interface, and the program goes through them up to the first zero. -/

namespace UprobeStats
open Rust Effect Text

/-! ### What is stored -/

/-- The entry of a filter: its interface and its method ids. -/
def BinderTransactionFilter.stored? (filter : BinderTransactionFilter) :
    Option (BinderInterfaceBpfMapKey × BinderCodesBpfMapValue) :=
  filter.interfaceName.map fun name => (toCKey name, toCValue (filter.methodIds.map (·.toUInt64)))

/-- The entries are new to the map, and are what is added to it. -/
structure Inserts (entries : List (BinderInterfaceBpfMapKey × BinderCodesBpfMapValue)) (m m' : InterfacesMap) : Prop where
  lookup : ∀ k v, m'.lookup k = some v ↔ m.lookup k = some v ∨ (k, v) ∈ entries
  fresh : ∀ entry ∈ entries, entry.1 ∉ m.keys

section Inserts
variable {entries entries' : List (BinderInterfaceBpfMapKey × BinderCodesBpfMapValue)} {m m' m'' : InterfacesMap}

theorem Inserts.refl (m : InterfacesMap) : Inserts [] m m := ⟨fun k v => by simp, fun entry h => by cases h⟩

theorem Inserts.mem_keys (h : Inserts entries m m') {k : BinderInterfaceBpfMapKey} (hk : k ∈ m.keys) : k ∈ m'.keys := by
  rw [← BoundedMap.lookup_isSome] at hk ⊢
  obtain ⟨v, hv⟩ := Option.isSome_iff_exists.mp hk
  exact Option.isSome_iff_exists.mpr ⟨v, (h.lookup k v).mpr (.inl hv)⟩

theorem Inserts.trans (h : Inserts entries m m') (h' : Inserts entries' m' m'') : Inserts (entries ++ entries') m m'' where
  lookup k v := by rw [h'.lookup, h.lookup, List.mem_append, or_assoc]
  fresh entry hentry := by
    rcases List.mem_append.mp hentry with hentry | hentry
    · exact h.fresh entry hentry
    · exact fun hk => h'.fresh entry hentry (h.mem_keys hk)

theorem inserts_update {k : BinderInterfaceBpfMapKey} {v : BinderCodesBpfMapValue}
    (h : m.update k v .noExist = .ok m') : Inserts [(k, v)] m m' := by
  have hnot : k ∉ m.keys := (BoundedMap.update_eq_ok h).2 rfl
  refine ⟨fun k' v' => ?_, fun entry hentry => ?_⟩
  · rw [List.mem_singleton, Prod.mk.injEq]
    by_cases hk : k' = k
    · subst hk
      rw [BoundedMap.lookup_update h, BoundedMap.lookup_eq_none.mpr hnot]
      simp [eq_comm]
    · rw [BoundedMap.lookup_update_ne h hk]
      simp [hk]
  · obtain rfl := List.mem_singleton.mp hentry
    exact hnot

end Inserts

section Write
variable {w w' : World} {r : PUnit}

theorem put_ok {name : String} {value : List UInt64} {flags : UpdateFlag}
    (h : (put name value flags).run w = .ok r w') :
    w.interfaces.update (toCKey name) (toCValue value) flags = .ok w'.interfaces := by
  cases hupdate : w.interfaces.update (toCKey name) (toCValue value) flags with
  | ok m =>
    rw [put_of_ok hupdate] at h
    cases h
    rfl
  | error e =>
    rw [put_of_error hupdate] at h
    cases h

theorem code_of_tryU64 {id : Int64} {code : UInt64} (h : tryU64 id.toInt = .ok code) : code = id.toUInt64 := by
  have hcode : Int64.ofInt (code.toNat : Int) = Int64.ofInt id.toInt := congrArg _ (tryU64_eq_ok.mp h)
  rw [Int64.ofInt_toInt] at hcode
  rw [← hcode, Int64.ofInt_eq_ofNat, Int64.toUInt64_ofNat', UInt64.ofNat_toNat]

theorem codes_of_mapM : ∀ {methodIds : List Int64} {codes : List UInt64},
    methodIds.mapM (fun methodId => tryU64 methodId.toInt) = .ok codes → codes = methodIds.map (·.toUInt64)
  | [], codes, h => by cases h; rfl
  | id :: methodIds, codes, h => by
    rw [List.mapM_cons] at h
    obtain ⟨code, hcode, h⟩ := andThen_eq_ok.mp h
    obtain ⟨codes', hcodes, h⟩ := andThen_eq_ok.mp h
    cases h
    rw [code_of_tryU64 hcode, codes_of_mapM hcodes, List.map_cons]

theorem writeFilter_ok {filter : BinderTransactionFilter} (h : (writeFilter filter).run w = .ok r w') :
    ∃ entry, filter.stored? = some entry ∧ Inserts [entry] w.interfaces w'.interfaces := by
  obtain ⟨name, hname, h⟩ := bind_lift_eq_ok.mp h
  obtain ⟨_, -, h⟩ := bind_lift_eq_ok.mp h
  obtain ⟨codes, hcodes, h⟩ := bind_lift_eq_ok.mp h
  obtain rfl := codes_of_mapM hcodes
  refine ⟨_, ?_, inserts_update (put_ok h)⟩
  rw [BinderTransactionFilter.stored?, okOr_eq_ok.mp hname, Option.map_some]

theorem writeFilters_ok : ∀ {filters : List BinderTransactionFilter} {w w' : World},
    (filters.forM writeFilter).run w = .ok r w' → (∀ filter ∈ filters, filter.stored?.isSome) ∧
      Inserts (filters.filterMap (·.stored?)) w.interfaces w'.interfaces
  | [], w, w', h => by
    cases h
    exact ⟨by simp, .refl _⟩
  | filter :: filters, w, w', h => by
    obtain ⟨v, hfilter, h⟩ := forM_cons_eq_ok.mp h
    obtain ⟨entry, hentry, hinserts⟩ := writeFilter_ok hfilter
    obtain ⟨hstored, hrest⟩ := writeFilters_ok h
    rw [List.filterMap_cons_some hentry]
    exact ⟨List.forall_mem_cons.mpr ⟨by simp [hentry], hstored⟩, hinserts.trans hrest⟩

theorem writeBinderTransactionFilter_ok {probe : ProbeConfig}
    (h : (writeBinderTransactionFilterToBinderBpfMap probe).run w = .ok r w') :
    probe.binderTransactionFilters ≠ [] ∧
      (∀ filter ∈ probe.binderTransactionFilters, filter.stored?.isSome) ∧
      Inserts (probe.binderTransactionFilters.filterMap (·.stored?)) w.interfaces w'.interfaces := by
  obtain ⟨_, hne, h⟩ := bind_lift_eq_ok.mp h
  obtain ⟨hstored, hinserts⟩ := writeFilters_ok h
  exact ⟨of_decide_eq_true (ensure_eq_ok.mp hne), hstored, hinserts⟩

end Write

/-! ### The loop of the program -/

theorem matchCodes_eq {code : UInt64} {submit : Option BinderTransaction} : ∀ codes : List UInt64,
    matchCodes code submit codes = if code ∈ codes.takeWhile (· ≠ 0) then submit.toList else []
  | [] => rfl
  | c :: codes => by
    rw [matchCodes, matchCodes_eq codes]
    by_cases hzero : c = 0
    · simp [hzero]
    · by_cases hcode : c = code
      · subst hcode
        simp [hzero]
      · simp [hzero, hcode, Ne.symm hcode]

/-- A value holds the first ten codes, and zeros behind them. -/
theorem fromCValue_toCValue (codes : List UInt64) :
    fromCValue (toCValue codes) = codes.take 10 ++ List.replicate (10 - (codes.take 10).length) 0 := by
  refine List.ext_getElem (by simp [fromCValue]) fun i h1 h2 => ?_
  simp only [fromCValue, List.getElem_ofFn, toCValue, List.getD_eq_getElem?_getD]
  by_cases hi : i < (codes.take 10).length
  · rw [List.getElem_append_left hi, List.getElem?_eq_getElem hi, Option.getD_some]
  · rw [List.getElem_append_right (by omega), List.getElem_replicate, List.getElem?_eq_none (by omega), Option.getD_none]

theorem takeWhile_append_zeros {codes : List UInt64} (n : Nat) :
    (codes ++ List.replicate n 0).takeWhile (· ≠ 0) = codes.takeWhile (· ≠ 0) := by
  induction codes with
  | nil => cases n <;> simp [List.replicate_succ]
  | cons c codes ih => rw [List.cons_append, List.takeWhile_cons, List.takeWhile_cons, ih]

theorem takeWhile_toCValue (codes : List UInt64) :
    (List.ofFn (toCValue codes).codes).takeWhile (· ≠ 0) = (codes.take 10).takeWhile (· ≠ 0) := by
  rw [← fromCValue, fromCValue_toCValue, takeWhile_append_zeros]

/-! ### The key of a transaction -/

/-- A name of ASCII characters that fits its key with the zero at its end. -/
structure PlainName (name : String) : Prop where
  ascii : ∀ b ∈ utf8 name, b < 128
  nulFree : 0 ∉ utf8 name
  short : (utf8 name).length ≤ 127

/-- A Binder object refers to a Java string that is this name, one byte for each character. -/
def Descriptor (mem : Memory) (binder : UInt64) (name : String) : Prop :=
  ∃ ref : UInt32, mem.read? 4 (binder + kBinderDescriptorOffset) = some (Bytes.toLe 4 ref.toNat) ∧
    mem.read? 4 (ref.toUInt64 + 8) = some (Bytes.toLe 4 (2 * (utf8 name).length)) ∧
    mem.read? (utf8 name).length (ref.toUInt64 + 16) = some (utf8 name)

/-- The process is in a transaction with this code, and its Binder object has the name of the interface. -/
structure Transaction (ctx : PtRegs) (mem : Memory) (interfaceName : String) (code : UInt32) : Prop where
  code_eq : ctx.regs 2 = code.toUInt64
  descriptor : Descriptor mem (ctx.regs 1) interfaceName

theorem toCKey_of_short {name : String} (h : (utf8 name).length ≤ 127) :
    (toCKey name).interfaceDescriptor.bytes = utf8 name ++ List.replicate (128 - (utf8 name).length) 0 := by
  rw [toCKey_bytes, List.take_of_length_le (by omega)]

/-- The program looks a transaction up under the key that the name of its interface has. -/
theorem Descriptor.key_eq {ctx : PtRegs} {mem : Memory} {name : String} (h : Descriptor mem (ctx.regs 1) name)
    (hname : PlainName name) : transactionKey ctx mem = toCKey name := by
  obtain ⟨ref, href, hcount, hbytes⟩ := h
  have hshort := hname.short
  have hsize : (if (128 : UInt32) < readUser32 mem (ref.toUInt64 + 8) / 2 + 1 then (128 : UInt32)
      else readUser32 mem (ref.toUInt64 + 8) / 2 + 1).toNat = (utf8 name).length + 1 := by
    rw [copySize_toNat, readUser32_of_length (by omega) hcount, Nat.mul_div_cancel_left _ (by decide)]
    exact Nat.min_eq_left (Nat.succ_le_succ hshort)
  have hstr := Memory.readStr?_of_read? hbytes hname.nulFree
  apply BinderInterfaceBpfMapKey.ext
  rw [transactionKey, readRef_of_read href, toCKey_of_short hshort]
  show (bpfProbeReadUserStr mem _ _ _).bytes = _
  rw [hsize, bpfProbeReadUserStr, if_neg (by omega), Nat.add_sub_cancel, hstr]
  dsimp only
  rw [Chars.write_bytes (by simp [maxStringLength]; omega), List.append_assoc, Chars.zeros, List.drop_replicate,
    List.length_append, List.length_singleton,
    show 128 - (utf8 name).length = 128 - ((utf8 name).length + 1) + 1 by omega, List.replicate_succ]
  rfl

theorem fromCKey_toCKey_of_short {name : String} (h0 : 0 ∉ utf8 name) (hshort : (utf8 name).length ≤ 127) :
    fromCKey (toCKey name) = name := by
  have hbytes : (toCKey name).interfaceDescriptor.bytes =
      utf8 name ++ List.replicate (127 - (utf8 name).length + 1) 0 := by
    rw [toCKey_of_short hshort]
    congr 2
    omega
  exact fromCKey_toCKey_of_string hbytes h0 rfl

theorem PlainName.fromCKey_toCKey {name : String} (h : PlainName name) : fromCKey (toCKey name) = name :=
  fromCKey_toCKey_of_short h.nulFree h.short

theorem PlainName.toCKey_inj {name name' : String} (h : PlainName name) (h' : PlainName name') :
    toCKey name = toCKey name' ↔ name = name' :=
  ⟨fun heq => by rw [← h.fromCKey_toCKey, heq, h'.fromCKey_toCKey], fun heq => by rw [heq]⟩

/-! ### From the config to the ring -/

/-- The filter has the code among the method ids that count: the first ten, up to a zero. -/
def BinderTransactionFilter.Lists (filter : BinderTransactionFilter) (code : UInt32) : Prop :=
  code.toUInt64.toInt64 ∈ (filter.methodIds.take 10).takeWhile (· ≠ 0)

def transactionEvent (ctx : PtRegs) (name : String) (code : UInt32) (ktimeNs : UInt64) : BinderTransaction where
  interfaceDescriptor := (toCKey name).interfaceDescriptor
  callingUid := (ctx.regs 6).toUInt32.toInt32
  code := code.toUInt64
  timestampNs := ktimeNs

section Submit
variable {ctx : PtRegs} {mem : Memory} {name : String} {code : UInt32}

theorem toUInt64_injective : Function.Injective Int64.toUInt64 := fun a b h => by
  rw [← a.toInt64_toUInt64, h, b.toInt64_toUInt64]

theorem lists_iff {filter : BinderTransactionFilter} : filter.Lists code ↔
    code.toUInt64 ∈ (List.ofFn (toCValue (filter.methodIds.map (·.toUInt64))).codes).takeWhile (· ≠ 0) := by
  have hzero : (fun id : Int64 => decide (id ≠ 0)) = (fun code : UInt64 => decide (code ≠ 0)) ∘ Int64.toUInt64 := by
    funext id
    have hiff : id.toUInt64 = 0 ↔ id = 0 := toUInt64_injective.eq_iff (b := 0)
    simp [hiff]
  rw [takeWhile_toCValue, ← List.map_take, List.takeWhile_map, ← hzero, BinderTransactionFilter.Lists,
    ← List.mem_map_of_injective toUInt64_injective, UInt64.toUInt64_toInt64]

instance {filter : BinderTransactionFilter} : Decidable (filter.Lists code) := inferInstanceAs (Decidable (_ ∈ _))

theorem execTransactInternal_eq (h : Transaction ctx mem name code) (hname : PlainName name) (ktimeNs : UInt64)
    (slot : BinderTransaction) (m : InterfacesMap) :
    execTransactInternal ctx mem ktimeNs (some slot) m = match m.lookup (toCKey name) with
      | none => []
      | some value => if code.toUInt64 ∈ (List.ofFn value.codes).takeWhile (· ≠ 0)
          then [transactionEvent ctx name code ktimeNs] else [] := by
  rw [execTransactInternal, h.descriptor.key_eq hname]
  cases m.lookup (toCKey name) with
  | none => rfl
  | some value =>
    simp only [matchCodes_eq, h.code_eq]
    rfl

/-- Exactly one event is submitted for a transaction when the filter of its interface has its code among the
    first ten method ids and before any zero, and none otherwise. -/
theorem submits_iff_lists {probe : ProbeConfig} {w w' : World} {r : PUnit} (hempty : w.interfaces = .empty)
    (hwrite : (writeBinderTransactionFilterToBinderBpfMap probe).run w = .ok r w')
    (hplain : ∀ filter ∈ probe.binderTransactionFilters, ∀ name, filter.interfaceName = some name → PlainName name)
    (h : Transaction ctx mem name code) (hname : PlainName name) (ktimeNs : UInt64) (slot : BinderTransaction) :
    ((∃ filter ∈ probe.binderTransactionFilters, filter.interfaceName = some name ∧ filter.Lists code) →
        execTransactInternal ctx mem ktimeNs (some slot) w'.interfaces = [transactionEvent ctx name code ktimeNs]) ∧
      ((¬∃ filter ∈ probe.binderTransactionFilters, filter.interfaceName = some name ∧ filter.Lists code) →
        execTransactInternal ctx mem ktimeNs (some slot) w'.interfaces = []) := by
  obtain ⟨-, -, hinserts⟩ := writeBinderTransactionFilter_ok hwrite
  rw [hempty] at hinserts
  have hentry {value : BinderCodesBpfMapValue} : w'.interfaces.lookup (toCKey name) = some value ↔
      ∃ filter ∈ probe.binderTransactionFilters, filter.interfaceName = some name ∧
        toCValue (filter.methodIds.map (·.toUInt64)) = value := by
    rw [hinserts.lookup, BoundedMap.lookup_empty, List.mem_filterMap]
    simp only [reduceCtorEq, false_or, BinderTransactionFilter.stored?, Option.map_eq_some_iff, Prod.mk.injEq]
    constructor
    · rintro ⟨filter, hfilter, name', hname', hkey, hvalue⟩
      obtain rfl := ((hplain filter hfilter name' hname').toCKey_inj hname).mp hkey
      exact ⟨filter, hfilter, hname', hvalue⟩
    · rintro ⟨filter, hfilter, hname', hvalue⟩
      exact ⟨filter, hfilter, name, hname', rfl, hvalue⟩
  rw [execTransactInternal_eq h hname]
  constructor
  · rintro ⟨filter, hfilter, hname', hlists⟩
    rw [hentry.mpr ⟨filter, hfilter, hname', rfl⟩]
    exact if_pos (lists_iff.mp hlists)
  · intro hnot
    cases hlookup : w'.interfaces.lookup (toCKey name) with
    | none => rfl
    | some value =>
      obtain ⟨filter, hfilter, hname', rfl⟩ := hentry.mp hlookup
      exact if_neg fun hmem => hnot ⟨filter, hfilter, hname', lists_iff.mpr hmem⟩

end Submit

/-! ### Eleven ids -/

/-- The memory of a process with a Binder object at 0 that refers to its interface descriptor at 12. -/
def binderMemory (interfaceName : String) : Memory :=
  .ofBytes 0 (List.replicate 8 0 ++ Bytes.toLe 4 12 ++ List.replicate 8 0 ++
    Bytes.toLe 4 (2 * (utf8 interfaceName).length) ++ List.replicate 4 0 ++ utf8 interfaceName)

def transacting (code : UInt32) : PtRegs := ⟨fun i => if i = 2 then code.toUInt64 else 0, 0⟩

theorem plainName_a : PlainName "a" := ⟨by decide +kernel, by decide +kernel, by decide +kernel⟩

theorem transaction_a (code : UInt32) : Transaction (transacting code) (binderMemory "a") "a" code where
  code_eq := rfl
  descriptor := by
    refine ⟨12, ?_, by decide +kernel, by decide +kernel⟩
    show (binderMemory "a").read? 4 (0 + kBinderDescriptorOffset) = _
    decide +kernel

def freshSlot : BinderTransaction := ⟨Chars.zeros maxStringLength, 0, 0, 0⟩

theorem submits_second : execTransactInternal (transacting 7) (binderMemory "a") 0 (some freshSlot)
    (after ((writeBinderTransactionFilterToBinderBpfMap (binderProbe "a" [3, 7])).run
      { interfaces := .empty })).interfaces = [transactionEvent (transacting 7) "a" 7 0] := by
  have hok : isOk ((writeBinderTransactionFilterToBinderBpfMap (binderProbe "a" [3, 7])).run
    { interfaces := .empty }) = true := by decide +kernel
  refine (submits_iff_lists rfl (eq_ok_of_isOk hok) (fun filter hfilter name hname => ?_) (transaction_a 7)
    plainName_a 0 freshSlot).1 ⟨⟨some "a", [3, 7]⟩, List.mem_singleton_self _, rfl, by decide +kernel⟩
  obtain rfl := List.mem_singleton.mp hfilter
  obtain rfl := Option.some.inj hname
  exact plainName_a

def elevenIds : List Int64 := [1, 2, 3, 4, 5, 6, 7, 8, 9, 10, 11]

/-- The filter has the code of the transaction as its eleventh id, is accepted and submits nothing. -/
theorem not_submitted_of_eleventh :
    isOk ((writeBinderTransactionFilterToBinderBpfMap (binderProbe "a" elevenIds)).run { interfaces := .empty }) = true ∧
      PlainName "a" ∧ Transaction (transacting 11) (binderMemory "a") "a" 11 ∧ 11 ∈ elevenIds ∧
        ∀ ktimeNs slot, execTransactInternal (transacting 11) (binderMemory "a") ktimeNs (some slot)
          (after ((writeBinderTransactionFilterToBinderBpfMap (binderProbe "a" elevenIds)).run
            { interfaces := .empty })).interfaces = [] := by
  refine ⟨by decide +kernel, plainName_a, transaction_a 11, by decide, fun ktimeNs slot => ?_⟩
  have hlookup : ((after ((writeBinderTransactionFilterToBinderBpfMap (binderProbe "a" elevenIds)).run
      { interfaces := .empty })).interfaces.lookup (toCKey "a")).map (List.ofFn ·.codes) =
        some [1, 2, 3, 4, 5, 6, 7, 8, 9, 10] := by decide +kernel
  obtain ⟨value, hvalue, hcodes⟩ := Option.map_eq_some_iff.mp hlookup
  rw [execTransactInternal_eq (transaction_a 11) plainName_a, hvalue]
  dsimp only
  rw [hcodes]
  exact if_neg (by decide)

end UprobeStats
