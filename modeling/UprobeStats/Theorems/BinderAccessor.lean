import UprobeStats.Theorems.BinderFilter

/-! The accessor as a map from names to lists of codes. Keys and values go through arrays of a fixed size; a key comes
    back as the name that it was made of, a value with its zeros. -/

namespace UprobeStats
open Rust Effect Text

/-! ### Operations -/

inductive AccessorOp where
  | put (key : String) (value : List UInt64) (flags : UpdateFlag)
  | get (key : String)
  | getFirstKey
  | delete (key : String)

/-- What an operation returns. -/
inductive Reply where
  | done
  | value (value : Option (List UInt64))
  | key (key : Option String)
  | deleted (deleted : Bool)
  | failed (e : Error)
  deriving DecidableEq

def report {α : Type} (reply : α → Reply) (x : Prog α) : Prog Reply := do
  match ← attempt x with
  | .ok a => pure (reply a)
  | .error e => pure (.failed e)

def exec (dev : Device) : AccessorOp → Prog Reply
  | .put key value flags => report (fun _ => .done) (put key value flags)
  | .get key => report .value (BpfMapAccessor.get key)
  | .getFirstKey => report .key (getFirstKey dev)
  | .delete key => report .deleted (delete key)

def execAll (dev : Device) (ops : List AccessorOp) : Prog (List Reply) := ops.mapM (exec dev)

/-! ### The map from names to codes -/

/-- The names of the map, each with its codes. -/
abbrev CodesMap := String → Option (List UInt64)

def CodesMap.next (m : CodesMap) : AccessorOp → CodesMap
  | .put key value flags => (BoundedMap.updated m key value flags).toOption.getD m
  | .delete key => Function.update m key none
  | _ => m

/-- What the map answers. The first key is any of its keys. -/
def CodesMap.Answers (m : CodesMap) : AccessorOp → Reply → Prop
  | .put key value flags, reply => match BoundedMap.updated m key value flags with
    | .ok _ => reply = .done
    | .error e => reply = .failed (.message s!"Failed to write to BPF map. Error code: {resOf e}")
  | .get key, reply => reply = .value (m key)
  | .getFirstKey, reply => (reply = .key none ∧ ∀ key, m key = none) ∨ ∃ key, reply = .key (some key) ∧ (m key).isSome
  | .delete key, reply => reply = .deleted (m key).isSome

def CodesMap.AnswersAll (m : CodesMap) : List AccessorOp → List Reply → Prop
  | [], replies => replies = []
  | op :: ops, replies => ∃ reply rest, replies = reply :: rest ∧ m.Answers op reply ∧ (m.next op).AnswersAll ops rest

/-- Each `get` finds nothing, or as many codes as a value has room for. -/
def CodesMap.GetsFull (m : CodesMap) : List AccessorOp → Prop
  | [] => True
  | op :: ops => (∀ key, op = .get key → ∀ codes ∈ m key, codes.length = 10) ∧ (m.next op).GetsFull ops

/-! ### What goes through the arrays -/

def FitsKey (name : String) : Prop := 0 ∉ utf8 name ∧ (utf8 name).length ≤ 127

def FitsValue (codes : List UInt64) : Prop := codes.length ≤ 10 ∧ 0 ∉ codes

/-- The operation is about one of the keys, and puts a value that fits. -/
def AccessorOp.Fits (K : Finset String) : AccessorOp → Prop
  | .put key value _ => key ∈ K ∧ FitsValue value
  | .get key => key ∈ K
  | .getFirstKey => True
  | .delete key => key ∈ K

/-- The interfaces hold the names and the codes of `m`, all of which fit. -/
structure Stores (K : Finset String) (m : CodesMap) (interfaces : InterfacesMap) : Prop where
  represents : interfaces.Represents toCKey toCValue K m
  fitsValue : ∀ name, ∀ codes ∈ m name, FitsValue codes

section Fits
variable {name : String} {codes : List UInt64} {K : Finset String}

theorem FitsKey.fromCKey_toCKey (h : FitsKey name) : fromCKey (toCKey name) = name := fromCKey_toCKey_of_short h.1 h.2

theorem toCKey_injOn (hK : ∀ name ∈ K, FitsKey name) : Set.InjOn toCKey K := by
  intro name hname name' hname' h
  rw [← (hK name hname).fromCKey_toCKey, h, (hK name' hname').fromCKey_toCKey]

/-- A list that fits comes back with zeros behind it, unless it fills the value. -/
theorem FitsValue.fromCValue_eq_iff (h : FitsValue codes) : fromCValue (toCValue codes) = codes ↔ codes.length = 10 := by
  rw [fromCValue_toCValue, List.take_of_length_le h.1, List.append_right_eq_self, List.replicate_eq_nil_iff,
    Nat.sub_eq_zero_iff_le]
  exact ⟨fun hge => Nat.le_antisymm h.1 hge, fun heq => heq.ge⟩

end Fits

/-! ### Single operations -/

section Step
variable {dev : Device} {K : Finset String} {m : CodesMap} {w : World}

theorem report_of_ok {α : Type} {reply : α → Reply} {x : Prog α} {a : α} {w' : World} (h : x.run w = .ok a w') :
    (report reply x).run w = .ok (reply a) w' := by
  rw [report, EStateM.run_bind, run_attempt, h]
  rfl

theorem report_of_error {α : Type} {reply : α → Reply} {x : Prog α} {e : Error} {w' : World}
    (h : x.run w = .error e w') : (report reply x).run w = .ok (.failed e) w' := by
  rw [report, EStateM.run_bind, run_attempt, h]
  rfl

theorem run_get (key : String) : (BpfMapAccessor.get key).run w =
    .ok ((w.interfaces.lookup (toCKey key)).map fromCValue) { w with requests := w.requests ++ [.getInterface key] } := rfl

theorem Stores.update (h : Stores K m w.interfaces) {name : String} {codes : Option (List UInt64)} {n : InterfacesMap}
    (hrep : n.Represents toCKey toCValue K (Function.update m name codes)) (hfits : ∀ codes' ∈ codes, FitsValue codes') :
    Stores K (Function.update m name codes) n := by
  refine ⟨hrep, fun name' codes' hcodes' => ?_⟩
  by_cases heq : name' = name
  · rw [heq, Function.update_self] at hcodes'
    exact hfits codes' hcodes'
  · rw [Function.update_of_ne heq] at hcodes'
    exact h.fitsValue name' codes' hcodes'

theorem exec_put (h : Stores K m w.interfaces) (hK : ∀ name ∈ K, FitsKey name) (hroom : K.card ≤ 5000) {key : String}
    {value : List UInt64} {flags : UpdateFlag} (hkey : key ∈ K) (hvalue : FitsValue value) :
    ∃ reply w', (exec dev (.put key value flags)).run w = .ok reply w' ∧
      Stores K (m.next (.put key value flags)) w'.interfaces ∧ m.Answers (.put key value flags) reply := by
  simp only [CodesMap.next, CodesMap.Answers]
  rcases h.represents.update (toCKey_injOn hK) hroom hkey value flags with ⟨g, n, hg, hn, hrep⟩ | ⟨e, hg, hn⟩
  · obtain rfl := BoundedMap.updated_eq_ok hg
    refine ⟨.done, _, report_of_ok (put_of_ok hn), ?_, ?_⟩
    · rw [hg]
      exact h.update hrep fun codes hcodes => Option.some.inj hcodes ▸ hvalue
    · rw [hg]
  · refine ⟨_, _, report_of_error (put_of_error hn), ?_, ?_⟩
    · rw [hg]
      exact h
    · rw [hg]

theorem exec_delete (h : Stores K m w.interfaces) (hK : ∀ name ∈ K, FitsKey name) {key : String} (hkey : key ∈ K) :
    ∃ reply w', (exec dev (.delete key)).run w = .ok reply w' ∧
      Stores K (m.next (.delete key)) w'.interfaces ∧ m.Answers (.delete key) reply := by
  rcases h.represents.delete (toCKey_injOn hK) hkey with ⟨hnone, hdelete⟩ | ⟨hsome, n, hn, hrep⟩
  · refine ⟨_, _, report_of_ok (delete_of_error hdelete), ?_, congrArg Reply.deleted (by rw [hnone]; rfl)⟩
    have hsame : m.next (.delete key) = m := by rw [CodesMap.next, ← hnone, Function.update_eq_self]
    rw [hsame]
    exact h
  · exact ⟨_, _, report_of_ok (delete_of_ok hn), h.update hrep (by simp), congrArg Reply.deleted hsome.symm⟩

/-- Whichever key of the map comes first, it is the code of a name of `m`. -/
theorem exec_getFirstKey (h : Stores K m w.interfaces) (hK : ∀ name ∈ K, FitsKey name) :
    ∃ reply w', (exec dev .getFirstKey).run w = .ok reply w' ∧ w'.interfaces = w.interfaces ∧
      m.Answers .getFirstKey reply := by
  obtain ⟨w', hsame, -, ⟨hkeys, hrun⟩ | ⟨k, hk, hrun⟩⟩ := getFirstKey_spec dev w
  · refine ⟨_, w', report_of_ok hrun, hsame, .inl ⟨rfl, fun name => ?_⟩⟩
    by_contra hne
    have hsome : (m name).isSome := Option.isSome_iff_ne_none.mpr hne
    have hmem := (h.represents.mem_keys_iff (h.represents.mem_of_isSome name hsome)).mpr hsome
    rw [hkeys] at hmem
    cases hmem
  · obtain ⟨name, hname, rfl⟩ := h.represents.exists_of_mem k hk
    refine ⟨_, w', report_of_ok hrun, hsame, .inr ⟨name, ?_, (h.represents.mem_keys_iff hname).mp hk⟩⟩
    rw [(hK name hname).fromCKey_toCKey]

/-- A value that does not fill its array comes back longer than it was. -/
theorem exec_get (h : Stores K m w.interfaces) {key : String} (hkey : key ∈ K) :
    ∃ reply w', (exec dev (.get key)).run w = .ok reply w' ∧ w'.interfaces = w.interfaces ∧
      (m.Answers (.get key) reply ↔ ∀ codes ∈ m key, codes.length = 10) := by
  refine ⟨_, _, report_of_ok (run_get key), rfl, ?_⟩
  rw [h.represents.lookup_eq key hkey, Option.map_map, CodesMap.Answers, Reply.value.injEq]
  cases hcodes : m key with
  | none => simp
  | some codes =>
    simp only [Option.map_some, Function.comp_apply, Option.some.injEq, Option.mem_some_iff, forall_eq']
    exact (h.fitsValue key codes hcodes).fromCValue_eq_iff

/-- An operation keeps the map stored, and its reply is the map's answer unless it gets a list that is not full. -/
theorem exec_spec (h : Stores K m w.interfaces) (hK : ∀ name ∈ K, FitsKey name) (hroom : K.card ≤ 5000) {op : AccessorOp}
    (hop : op.Fits K) :
    ∃ reply w', (exec dev op).run w = .ok reply w' ∧ Stores K (m.next op) w'.interfaces ∧
      (m.Answers op reply ↔ ∀ key, op = .get key → ∀ codes ∈ m key, codes.length = 10) := by
  cases op with
  | put key value flags =>
    obtain ⟨reply, w', hrun, hstores, hanswer⟩ := exec_put h hK hroom hop.1 hop.2
    exact ⟨reply, w', hrun, hstores, iff_of_true hanswer fun _ heq => by cases heq⟩
  | get key =>
    obtain ⟨reply, w', hrun, hsame, hiff⟩ := exec_get h hop
    refine ⟨reply, w', hrun, hsame ▸ h, hiff.trans ⟨fun hfull key' heq => ?_, fun hfull => hfull key rfl⟩⟩
    cases heq
    exact hfull
  | getFirstKey =>
    obtain ⟨reply, w', hrun, hsame, hanswer⟩ := exec_getFirstKey h hK
    exact ⟨reply, w', hrun, hsame ▸ h, iff_of_true hanswer fun _ heq => by cases heq⟩
  | delete key =>
    obtain ⟨reply, w', hrun, hstores, hanswer⟩ := exec_delete h hK hop
    exact ⟨reply, w', hrun, hstores, iff_of_true hanswer fun _ heq => by cases heq⟩

end Step

/-! ### Sequences of operations -/

/-- From a map that stores `m` every sequence of operations is answered as `m` answers it exactly when each `get` finds
    nothing or a list of ten codes. -/
theorem accessor_answers_iff (dev : Device) {K : Finset String} (hK : ∀ name ∈ K, FitsKey name) (hroom : K.card ≤ 5000) :
    ∀ {ops : List AccessorOp} {m : CodesMap} {w : World}, Stores K m w.interfaces → (∀ op ∈ ops, op.Fits K) →
    ∃ replies w', (execAll dev ops).run w = .ok replies w' ∧ (m.AnswersAll ops replies ↔ m.GetsFull ops)
  | [], _, w, _, _ => ⟨[], w, rfl, iff_of_true rfl trivial⟩
  | op :: ops, m, w, h, hops => by
    obtain ⟨hop, hops⟩ := List.forall_mem_cons.mp hops
    obtain ⟨reply, u, hrun, hstores, hanswer⟩ : ∃ reply u, (exec dev op).run w = .ok reply u ∧
      Stores K (m.next op) u.interfaces ∧ (m.Answers op reply ↔ ∀ key, op = .get key → ∀ codes ∈ m key, codes.length = 10) :=
      exec_spec h hK hroom hop
    obtain ⟨rest, w', hrest, hanswers⟩ := accessor_answers_iff dev hK hroom hstores hops
    refine ⟨reply :: rest, w', mapM_cons_eq_ok.mpr ⟨reply, u, rest, hrun, hrest, rfl⟩, ?_⟩
    rw [CodesMap.GetsFull, ← hanswer, ← hanswers, CodesMap.AnswersAll]
    constructor
    · rintro ⟨_, _, heq, hhead, htail⟩
      cases heq
      exact ⟨hhead, htail⟩
    · exact fun ⟨hhead, htail⟩ => ⟨reply, rest, rfl, hhead, htail⟩

theorem stores_empty (K : Finset String) : Stores K (fun _ => none) (.empty : InterfacesMap) :=
  ⟨.of_empty, fun _ _ h => by cases h⟩

def tenCodes : List UInt64 := [1, 2, 3, 4, 5, 6, 7, 8, 9, 10]

theorem next_put_of_new {m : CodesMap} {key : String} {value : List UInt64} {flags : UpdateFlag} (hnew : m key = none)
    (hflags : flags ≠ .exist) : m.next (.put key value flags) = Function.update m key (some value) := by
  have hupdated : BoundedMap.updated m key value flags = .ok (Function.update m key (some value)) := by
    rw [BoundedMap.updated, hnew, if_neg (by simp), if_neg hflags]
  rw [CodesMap.next, hupdated]
  rfl

theorem fitsValue_tenCodes : FitsValue tenCodes := ⟨by decide, by decide⟩

theorem fitsKey_a : FitsKey "a" := ⟨by decide +kernel, by decide +kernel⟩

theorem accessor_answers_tenCodes : ∃ replies w',
    (execAll (quietDevice (oneTask [])) [.put "a" tenCodes .noExist, .get "a", .getFirstKey, .delete "a"]).run
      { interfaces := .empty } = .ok replies w' ∧
    CodesMap.AnswersAll (fun _ => none) [.put "a" tenCodes .noExist, .get "a", .getFirstKey, .delete "a"] replies := by
  have hK : ∀ name ∈ ({"a"} : Finset String), FitsKey name := fun name hname => Finset.mem_singleton.mp hname ▸ fitsKey_a
  have hops : ∀ op ∈ [AccessorOp.put "a" tenCodes .noExist, .get "a", .getFirstKey, .delete "a"], op.Fits {"a"} := by
    simp [AccessorOp.Fits, fitsValue_tenCodes]
  obtain ⟨replies, w', hrun, hiff⟩ :=
    accessor_answers_iff (quietDevice (oneTask [])) hK (by decide) (w := { interfaces := .empty }) (stores_empty _) hops
  refine ⟨replies, w', hrun, hiff.mpr ⟨by simp, ?_, by simp, by simp, trivial⟩⟩
  rintro key heq codes hcodes
  cases heq
  rw [next_put_of_new rfl (by decide), Function.update_self, Option.mem_some_iff] at hcodes
  exact hcodes ▸ rfl

/-- A list of one code comes back as a list of ten. -/
theorem not_accessor_answers_oneCode : FitsKey "a" ∧ FitsValue [7] ∧ ¬ ∃ replies w',
    (execAll (quietDevice (oneTask [])) [.put "a" [7] .any, .get "a"]).run { interfaces := .empty } = .ok replies w' ∧
    CodesMap.AnswersAll (fun _ => none) [.put "a" [7] .any, .get "a"] replies := by
  refine ⟨fitsKey_a, ⟨by decide, by decide⟩, ?_⟩
  rintro ⟨replies, w', hrun, reply, _, rfl, -, reply', _, rfl, hget, -⟩
  have hreplies : value? ((execAll (quietDevice (oneTask [])) [.put "a" [7] .any, .get "a"]).run
      { interfaces := .empty }) = some [.done, .value (some [7, 0, 0, 0, 0, 0, 0, 0, 0, 0])] := by decide +kernel
  rw [hrun] at hreplies
  cases hreplies
  rw [CodesMap.Answers, next_put_of_new rfl (by decide), Function.update_self] at hget
  exact absurd hget (by decide)

end UprobeStats
