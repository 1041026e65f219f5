import UprobeStats.Cxx.BpfMap

/-! Iterating over a map while deleting from it. The next key is fetched while the current one is still there, so it
    is the first key of what the deletion leaves, and the iteration goes through the keys in their order. -/

namespace UprobeStats.Cxx.BpfMap
open Effect

section Iteration
variable {κ ν : Type} {cap : Nat} {σ : Type} [DecidableEq κ] {s : State κ ν cap σ}

/-- A visit of a present key succeeds and deletes this key only. What else the caller does is left open. -/
def Deletes (visit : κ → Prog κ ν cap σ PUnit) : Prop :=
  ∀ key s, key ∈ s.map.keys → ∃ s', (visit key).run s = .ok ⟨⟩ s' ∧ s'.map.entries = s.map.entries.erase key

/-- The same of a filter that is given the value of the key. -/
def DeletesGiven (filter : κ → ν → Prog κ ν cap σ PUnit) : Prop :=
  ∀ key value s, s.map.lookup key = some value →
    ∃ s', (filter key value).run s = .ok ⟨⟩ s' ∧ s'.map.entries = s.map.entries.erase key

theorem keys_of_erase {s' : State κ ν cap σ} {k : κ} {ks : List κ} (hkeys : s.map.keys = k :: ks)
    (h : s'.map.entries = s.map.entries.erase k) : s'.map.keys = ks := by
  have hkeys' : s.map.entries.keys = k :: ks := hkeys
  rw [BoundedMap.keys, h, AList.keys_erase, hkeys', List.erase_cons_head]

/-- From the first key on, a walk that deletes visits the keys one after the other, and ends. -/
theorem iterateFrom_deletes {visit : κ → Prog κ ν cap σ PUnit} (hvisit : Deletes visit) :
    ∀ {fuel : Nat} {ks : List κ} {s : State κ ν cap σ}, s.map.keys = ks → ks.length < fuel →
    ∃ s', (ks.forM visit).run s = .ok ⟨⟩ s' ∧
      (iterateFrom visit fuel (BoundedMap.first ks)).run s = .ok true s' ∧ s'.map = .empty
  | 0, _, _, _, hfuel => absurd hfuel (Nat.not_lt_zero _)
  | fuel + 1, [], s, hkeys, _ => ⟨s, rfl, rfl, BoundedMap.eq_empty_iff.mpr hkeys⟩
  | fuel + 1, k :: ks, s, hkeys, hfuel => by
    obtain ⟨t, hrun, hdeleted⟩ := hvisit k s (hkeys ▸ List.mem_cons_self ..)
    obtain ⟨s', hrest, hloop, hempty⟩ :=
      iterateFrom_deletes hvisit (keys_of_erase hkeys hdeleted) (Nat.lt_of_succ_lt_succ hfuel)
    have hnext : (attempt (getNextKey k)).run s = .ok (BoundedMap.first ks) s := by
      rw [run_attempt, getNextKey, run_get_bind, run_lift, BoundedMap.nextKey_head hkeys]
      cases ks <;> rfl
    refine ⟨s', forM_cons_eq_ok.mpr ⟨t, hrun, hrest⟩, ?_, hempty⟩
    exact bind_eq_ok.mpr ⟨_, s, hnext, bind_eq_ok.mpr ⟨⟨⟩, t, hrun, hloop⟩⟩

theorem run_getFirstKey : (attempt getFirstKey).run s = .ok (BoundedMap.first s.map.keys) s := by
  rw [run_attempt, getFirstKey, run_get_bind, run_lift, BoundedMap.nextKey]
  cases s.map.keys <;> rfl

/-! ### The values -/

/-- What `iterateWithValue` does with a key. -/
def visitValue (filter : κ → ν → Prog κ ν cap σ PUnit) (key : κ) : Prog κ ν cap σ PUnit := do
  let curValue ← readValue key
  filter key curValue

theorem run_visitValue {filter : κ → ν → Prog κ ν cap σ PUnit} {k : κ} {v : ν} (h : s.map.lookup k = some v) :
    (visitValue filter k).run s = (filter k v).run s := by
  have hread : (readValue k).run s = .ok v s := by
    rw [readValue, run_get_bind, h]
    rfl
  rw [visitValue, EStateM.run_bind, hread]

theorem DeletesGiven.deletes {filter : κ → ν → Prog κ ν cap σ PUnit} (h : DeletesGiven filter) :
    Deletes (visitValue filter) := by
  intro k s hk
  obtain ⟨v, hv⟩ := Option.isSome_iff_exists.mp (BoundedMap.lookup_isSome.mpr hk)
  rw [run_visitValue hv]
  exact h k v s hv

/-- A key still has the value that it had when the iteration comes to it. -/
theorem forM_visitValue {filter : κ → ν → Prog κ ν cap σ PUnit} (h : DeletesGiven filter) :
    ∀ {es : List (Sigma fun _ : κ => ν)} {s : State κ ν cap σ}, s.map.entries.entries = es →
    ((es.map Sigma.fst).forM (visitValue filter)).run s = (es.forM fun e => filter e.1 e.2).run s
  | [], _, _ => rfl
  | e :: es, s, hentries => by
    have hlookup : s.map.lookup e.1 = some e.2 := by
      rw [BoundedMap.lookup, AList.lookup, hentries, List.dlookup_cons_eq]
    obtain ⟨t, hrun, hdeleted⟩ := h e.1 e.2 s hlookup
    have hrest : t.map.entries.entries = es := by
      have herase : (s.map.entries.erase e.1).entries = List.kerase e.1 s.map.entries.entries := rfl
      rw [hdeleted, herase, hentries, List.kerase_cons_eq rfl]
    rw [List.map_cons, forM_cons, forM_cons, EStateM.run_bind, EStateM.run_bind, run_visitValue hlookup, hrun]
    exact forM_visitValue h hrest

theorem clear_empties : ∀ {fuel : Nat} {s : State κ ν cap σ}, s.map.keys.length < fuel →
    ∃ s', (clear fuel).run s = .ok true s' ∧ s'.map = .empty ∧ s'.caller = s.caller
  | 0, _, hfuel => absurd hfuel (Nat.not_lt_zero _)
  | fuel + 1, s, hfuel => by
    rw [clear, EStateM.run_bind, run_getFirstKey]
    cases hkeys : s.map.keys with
    | nil => exact ⟨s, rfl, BoundedMap.eq_empty_iff.mpr hkeys, rfl⟩
    | cons k ks =>
      obtain ⟨m, hm, -⟩ := BoundedMap.delete_of_mem (m := s.map) (hkeys ▸ List.mem_cons_self ..)
      have hdelete : (attempt (deleteValue k)).run s = .ok (.ok ⟨⟩) { s with map := m } := by
        rw [run_attempt, deleteValue, run_get_bind, hm]
        rfl
      have hlength := BoundedMap.length_delete hm
      have hfuel' : ({ s with map := m } : State κ ν cap σ).map.keys.length < fuel := by
        rw [← hlength] at hfuel
        exact Nat.lt_of_succ_lt_succ hfuel
      obtain ⟨s', hrun, hempty, hcaller⟩ := clear_empties hfuel'
      exact ⟨s', bind_eq_ok.mpr ⟨_, _, hdelete, hrun⟩, hempty, hcaller⟩

end Iteration

/-- With a filter that deletes its key each iteration is the filter called on every key of the map once, in their
    order, and with the values that they had; it succeeds and leaves the map empty. So does `clear`. -/
theorem iteration_deletes_each_once {κ ν : Type} {cap : Nat} {σ : Type} [DecidableEq κ]
    {filter : κ → Prog κ ν cap σ PUnit} {filterWithValue : κ → ν → Prog κ ν cap σ PUnit} (hfilter : Deletes filter)
    (hfilterWithValue : DeletesGiven filterWithValue) (s : State κ ν cap σ) {fuel : Nat}
    (hfuel : s.map.keys.length < fuel) :
    s.map.keys.Nodup ∧
    (∃ s', (s.map.keys.forM filter).run s = .ok ⟨⟩ s' ∧ (iterate fuel filter).run s = .ok true s' ∧ s'.map = .empty) ∧
    (∃ s', (s.map.entries.entries.forM fun e => filterWithValue e.1 e.2).run s = .ok ⟨⟩ s' ∧
      (iterateWithValue fuel filterWithValue).run s = .ok true s' ∧ s'.map = .empty) ∧
    ∃ s', (clear fuel).run s = .ok true s' ∧ s'.map = .empty ∧ s'.caller = s.caller := by
  refine ⟨s.map.entries.keys_nodup, ?_, ?_, clear_empties hfuel⟩
  · obtain ⟨s', hcalls, hloop, hempty⟩ := iterateFrom_deletes hfilter rfl hfuel
    exact ⟨s', hcalls, bind_eq_ok.mpr ⟨_, s, run_getFirstKey, hloop⟩, hempty⟩
  · obtain ⟨s', hcalls, hloop, hempty⟩ := iterateFrom_deletes hfilterWithValue.deletes rfl hfuel
    have hvalues : (s.map.keys.forM (visitValue filterWithValue)).run s =
        (s.map.entries.entries.forM fun e => filterWithValue e.1 e.2).run s := forM_visitValue hfilterWithValue rfl
    exact ⟨s', hvalues ▸ hcalls, bind_eq_ok.mpr ⟨_, s, run_getFirstKey, hloop⟩, hempty⟩

/-! ### A filter that deletes -/

section Record
variable {κ ν : Type} {cap : Nat} {σ : Type} [DecidableEq κ]

theorem deleteValue_deletes : Deletes (deleteValue : κ → Prog κ ν cap σ PUnit) := by
  intro k s hk
  obtain ⟨m, hm, hentries⟩ := BoundedMap.delete_of_mem hk
  refine ⟨{ s with map := m }, ?_, hentries⟩
  rw [deleteValue, run_get_bind, hm]
  rfl

/-- Deletes an entry and remembers it. -/
def record (key : κ) (value : ν) : Prog κ ν cap (List (κ × ν)) PUnit := do
  modify fun s => { s with caller := s.caller ++ [(key, value)] }
  deleteValue key

theorem record_deletes : DeletesGiven (record : κ → ν → Prog κ ν cap (List (κ × ν)) PUnit) := by
  intro k v s hlookup
  have hk : k ∈ s.map.keys := BoundedMap.lookup_isSome.mp (hlookup ▸ rfl)
  exact deleteValue_deletes k { s with caller := s.caller ++ [(k, v)] } hk

end Record

def twoEntries : State Nat Char 5 (List (Nat × Char)) := 
  ⟨⟨⟨[⟨7, 'a'⟩, ⟨3, 'b'⟩], show [7, 3].Nodup by decide⟩, by decide⟩, []⟩

theorem iteration_deletes_each_once_of_twoEntries :
    ∃ s', (iterateWithValue 3 record).run twoEntries = .ok true s' ∧ s'.caller = [(7, 'a'), (3, 'b')] ∧
      s'.map = .empty := by
  have hfuel : twoEntries.map.keys.length < 3 := by decide
  obtain ⟨-, -, ⟨s', hcalls, hrun, hempty⟩, -⟩ :=
    iteration_deletes_each_once deleteValue_deletes record_deletes twoEntries hfuel
  refine ⟨s', hrun, ?_, hempty⟩
  cases hcalls
  rfl

end UprobeStats.Cxx.BpfMap
