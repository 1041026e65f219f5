import UprobeStats.Theorems.BpfMapIteration
import Mathlib.Data.Nat.Choose.Basic

/-! What an iteration visits when the map changes under it. A filter that touches no other key is called on each key once,
    in their order. While others delete, the next key may be gone when it is asked for: `iterate` starts over then, and
    `iterateWithValue` fails. -/

namespace UprobeStats.Cxx.BpfMap
open Effect

/-! ### Keys in their order -/

section Keys
variable {κ ν : Type} {cap : Nat} [DecidableEq κ] {m : BoundedMap κ ν cap} {k : κ} {a b ks : List κ}

theorem nextKey_of_split (h : m.keys = a ++ k :: b) : m.nextKey (some k) = BoundedMap.first b := by
  have hnodup : (a ++ k :: b).Nodup := h ▸ m.entries.keys_nodup
  have hnot : k ∉ a := fun hk => (List.nodup_append.mp hnodup).2.2 k hk k (List.mem_cons_self ..) rfl
  have hbefore : ∀ x ∈ a, decide (x ≠ k) = true := fun x hx => decide_eq_true fun heq => hnot (heq ▸ hx)
  have hat : (k :: b).dropWhile (· ≠ k) = k :: b := List.dropWhile_cons_of_neg (by simp)
  rw [BoundedMap.nextKey, h, if_pos (by simp), List.dropWhile_append_of_pos hbefore, hat, List.tail_cons]

theorem nextKey_of_not_mem (h : k ∉ m.keys) : m.nextKey (some k) = BoundedMap.first m.keys := by
  rw [BoundedMap.nextKey, if_neg h]

omit [DecidableEq κ] in
/-- What is left of a list around a key that is left. -/
theorem split_of_sublist (hsub : ks.Sublist (a ++ k :: b)) (hnodup : (a ++ k :: b).Nodup) (hk : k ∈ ks) :
    ∃ a' b', ks = a' ++ k :: b' ∧ a'.Sublist a ∧ b'.Sublist b := by
  obtain ⟨-, hb, hdisjoint⟩ := List.nodup_append.mp hnodup
  obtain ⟨l, r, rfl, hl, hr⟩ := List.sublist_append_iff.mp hsub
  have hkl : k ∉ l := fun hmem => hdisjoint k (hl.subset hmem) k (List.mem_cons_self ..) rfl
  have hkr : k ∈ r := (List.mem_append.mp hk).resolve_left hkl
  cases hr with
  | cons _ hr => exact absurd (hr.subset hkr) (List.nodup_cons.mp hb).1
  | cons_cons _ hr => exact ⟨l, _, rfl, hl, hr⟩

end Keys

/-! ### Filters that touch no other key -/

section Local
variable {κ ν : Type} {cap : Nat} {σ : Type} [DecidableEq κ] {s t : State κ ν cap σ}

/-- The other keys stay, with their values and in their order. -/
def OthersStay (key : κ) (s t : State κ ν cap σ) : Prop :=
  (t.map.keys = s.map.keys ∨ t.map.keys = s.map.keys.erase key) ∧
    ∀ key', key' ≠ key → t.map.lookup key' = s.map.lookup key'

/-- However a visit ends it touches no other key: it may use or delete its own, and fail. -/
def Local (visit : κ → Prog κ ν cap σ PUnit) : Prop :=
  ∀ key s, key ∈ s.map.keys → OthersStay key s (after ((visit key).run s))

def LocalGiven (filter : κ → ν → Prog κ ν cap σ PUnit) : Prop :=
  ∀ key value s, s.map.lookup key = some value → OthersStay key s (after ((filter key value).run s))

theorem run_getNextKey (k : κ) : (attempt (getNextKey k)).run s = .ok (s.map.nextKey (some k)) s := by
  rw [run_attempt, getNextKey, run_get_bind, run_lift]
  cases s.map.nextKey (some k) <;> rfl

/-- The walk from a key on is the loop over the keys from there on. -/
theorem iterateFrom_local {visit : κ → Prog κ ν cap σ PUnit} (hvisit : Local visit) :
    ∀ {b a : List κ} {fuel : Nat} {s : State κ ν cap σ}, s.map.keys = a ++ b → b.length < fuel →
    (iterateFrom visit fuel (BoundedMap.first b)).run s = (b.forM visit >>= fun _ => pure true).run s
  | _, _, 0, _, _, hfuel => absurd hfuel (Nat.not_lt_zero _)
  | [], _, _ + 1, _, _, _ => rfl
  | k :: b, a, fuel + 1, s, hkeys, hfuel => by
    have hnext := run_getNextKey (s := s) k
    rw [nextKey_of_split hkeys] at hnext
    rw [BoundedMap.first, iterateFrom, EStateM.run_bind, hnext, forM_cons, bind_assoc]
    dsimp only
    rw [EStateM.run_bind, EStateM.run_bind]
    cases hrun : (visit k).run s with
    | error e t => rfl
    | ok u t =>
      have hstay := (hvisit k s (by rw [hkeys]; simp)).1
      have hnodup : (a ++ k :: b).Nodup := hkeys ▸ s.map.entries.keys_nodup
      have hnot : k ∉ a := fun hk => (List.nodup_append.mp hnodup).2.2 k hk k (List.mem_cons_self ..) rfl
      rw [hrun, after_ok, hkeys] at hstay
      rcases hstay with hsame | herased
      · exact iterateFrom_local hvisit (hsame.trans (List.append_cons a k b)) (Nat.lt_of_succ_lt_succ hfuel)
      · rw [List.erase_append_right _ hnot, List.erase_cons_head] at herased
        exact iterateFrom_local hvisit herased (Nat.lt_of_succ_lt_succ hfuel)

theorem LocalGiven.local {filter : κ → ν → Prog κ ν cap σ PUnit} (h : LocalGiven filter) : Local (visitValue filter) := by
  intro k s hk
  obtain ⟨v, hv⟩ := Option.isSome_iff_exists.mp (BoundedMap.lookup_isSome.mpr hk)
  rw [run_visitValue hv]
  exact h k v s hv

/-- A key that is still to come has the value that it had. -/
theorem forM_visitValue_local {filter : κ → ν → Prog κ ν cap σ PUnit} (h : LocalGiven filter) :
    ∀ {es : List (Sigma fun _ : κ => ν)} {s : State κ ν cap σ}, (es.map Sigma.fst).Nodup →
    (∀ e ∈ es, s.map.lookup e.1 = some e.2) →
    ((es.map Sigma.fst).forM (visitValue filter)).run s = (es.forM fun e => filter e.1 e.2).run s
  | [], _, _, _ => rfl
  | e :: es, s, hnodup, hlookup => by
    obtain ⟨he, hes⟩ := List.forall_mem_cons.mp hlookup
    obtain ⟨hnot, hnodup⟩ := List.nodup_cons.mp hnodup
    have hstay := (h e.1 e.2 s he).2
    rw [List.map_cons, forM_cons, forM_cons, EStateM.run_bind, EStateM.run_bind, run_visitValue he]
    cases hrun : (filter e.1 e.2).run s with
    | error err t => rfl
    | ok u t =>
      rw [hrun] at hstay
      refine forM_visitValue_local h hnodup fun e' he' => ?_
      have hne : e'.1 ≠ e.1 := fun heq => hnot (heq ▸ List.mem_map_of_mem he')
      exact (hstay e'.1 hne).trans (hes e' he')

end Local

/-- A filter that touches no other key is called on each key of the map once, in their order and with the value that it
    had, until a call fails; that is what each iteration is. -/
theorem iteration_is_foreach {κ ν : Type} {cap : Nat} {σ : Type} [DecidableEq κ] {filter : κ → Prog κ ν cap σ PUnit}
    {filterWithValue : κ → ν → Prog κ ν cap σ PUnit} (hfilter : Local filter)
    (hfilterWithValue : LocalGiven filterWithValue) (s : State κ ν cap σ) {fuel : Nat}
    (hfuel : s.map.keys.length < fuel) :
    (iterate fuel filter).run s = (s.map.keys.forM filter >>= fun _ => pure true).run s ∧
    (iterateWithValue fuel filterWithValue).run s =
      ((s.map.entries.entries.forM fun e => filterWithValue e.1 e.2) >>= fun _ => pure true).run s := by
  have hwalk {visit : κ → Prog κ ν cap σ PUnit} (hvisit : Local visit) :
      (iterateFrom visit fuel (BoundedMap.first s.map.keys)).run s =
        (s.map.keys.forM visit >>= fun _ => pure true).run s :=
    iterateFrom_local hvisit (a := []) rfl hfuel
  constructor
  · rw [iterate, EStateM.run_bind, run_getFirstKey]
    exact hwalk hfilter
  · have hvalues : (s.map.keys.forM (visitValue filterWithValue)).run s =
        (s.map.entries.entries.forM fun e => filterWithValue e.1 e.2).run s :=
      forM_visitValue_local hfilterWithValue s.map.entries.keys_nodup fun e he =>
        AList.mem_lookup_iff.mpr he
    rw [iterateWithValue, EStateM.run_bind, run_getFirstKey, EStateM.run_bind, ← hvalues, ← EStateM.run_bind]
    exact hwalk hfilterWithValue.local

section Delete
variable {κ ν : Type} {cap : Nat} {σ : Type} [DecidableEq κ]

theorem othersStay_deleteValue {k : κ} {s : State κ ν cap σ} (hk : k ∈ s.map.keys) :
    OthersStay k s (after ((deleteValue k).run s)) := by
  obtain ⟨m, hm, hentries⟩ := BoundedMap.delete_of_mem hk
  have hrun : (deleteValue k).run s = .ok ⟨⟩ { s with map := m } := by
    rw [deleteValue, run_get_bind, hm]
    rfl
  rw [hrun]
  refine ⟨.inr ?_, fun k' hne => ?_⟩
  · rw [after_ok, BoundedMap.keys, hentries, AList.keys_erase, BoundedMap.keys]
  · rw [after_ok, BoundedMap.lookup, hentries, AList.lookup_erase_ne hne, BoundedMap.lookup]

/-- Deletes a key with this value, and gives up at any other. -/
def deleteOnly [DecidableEq ν] (value : ν) (key : κ) (curValue : ν) : Prog κ ν cap σ PUnit :=
  if curValue = value then deleteValue key else throw .tooBig

theorem localGiven_deleteOnly [DecidableEq ν] (value : ν) :
    LocalGiven (deleteOnly value : κ → ν → Prog κ ν cap σ PUnit) := by
  intro k v s hv
  have hk : k ∈ s.map.keys := BoundedMap.lookup_isSome.mp (hv ▸ rfl)
  rw [deleteOnly]
  split
  · exact othersStay_deleteValue hk
  · exact ⟨.inl rfl, fun _ _ => rfl⟩

theorem local_deleteValue : Local (deleteValue : κ → Prog κ ν cap σ PUnit) := fun _ _ hk => othersStay_deleteValue hk

end Delete

theorem iteration_is_foreach_of_twoEntries : ∃ s', (iterateWithValue 3 (deleteOnly 'a')).run twoEntries =
    .error .tooBig s' ∧ s'.map.keys = [3] := by
  have hfuel : twoEntries.map.keys.length < 3 := by decide
  rw [(iteration_is_foreach local_deleteValue (localGiven_deleteOnly 'a') twoEntries hfuel).2]
  exact ⟨_, rfl, rfl⟩

/-! ### Others delete -/

section Shrinking
variable {κ ν : Type} {cap : Nat} {σ : Type} [DecidableEq κ] {seen : σ → List κ}

/-- However a visit ends, keys may have been deleted since the last one, by the filter or by anyone else; it is noted
    which key was visited. -/
def Shrinks (seen : σ → List κ) (visit : κ → Prog κ ν cap σ PUnit) : Prop :=
  ∀ key s, (after ((visit key).run s)).map.keys.Sublist s.map.keys ∧
    seen (after ((visit key).run s)).caller = seen s.caller ++ [key]

/-- How many visits may come yet: the keys from the next one on, and all passes over fewer keys. -/
def visitsLeft (keys : List κ) : Except Errno κ → Nat
  | .error _ => 0
  | .ok k => if k ∈ keys then keys.length.choose 2 + (keys.dropWhile (· ≠ k)).length else (keys.length + 1).choose 2 + 1

/-- The keys before the next one have been visited, and nothing has been visited that was never there. -/
structure Covers (seen : σ → List κ) (all : List κ) (s : State κ ν cap σ) (next : Except Errno κ) : Prop where
  keys : s.map.keys.Sublist all
  visited : ∀ k ∈ seen s.caller, k ∈ all
  present : ∀ k, next = .ok k → k ∈ all
  before : ∀ k, next = .ok k → k ∈ s.map.keys → ∃ a b, s.map.keys = a ++ k :: b ∧ ∀ k' ∈ a, k' ∈ seen s.caller
  done : ∀ e, next = .error e → e = .noEntry ∧ ∀ k ∈ s.map.keys, k ∈ seen s.caller

theorem visitsLeft_of_split {keys a b : List κ} {k : κ} (hkeys : keys = a ++ k :: b) (hnodup : keys.Nodup) :
    visitsLeft keys (.ok k) = keys.length.choose 2 + (b.length + 1) := by
  subst hkeys
  have hnot : k ∉ a := fun hk => (List.nodup_append.mp hnodup).2.2 k hk k (List.mem_cons_self ..) rfl
  have hbefore : ∀ x ∈ a, decide (x ≠ k) = true := fun x hx => decide_eq_true fun heq => hnot (heq ▸ hx)
  have hat : (k :: b).dropWhile (· ≠ k) = k :: b := List.dropWhile_cons_of_neg (by simp)
  rw [visitsLeft, if_pos (by simp), List.dropWhile_append_of_pos hbefore, hat, List.length_cons]

theorem visitsLeft_of_not_mem {keys : List κ} {k : κ} (h : k ∉ keys) :
    visitsLeft keys (.ok k) = (keys.length + 1).choose 2 + 1 := if_neg h

theorem choose_two_mono {m n : Nat} (h : m ≤ n) : m.choose 2 ≤ n.choose 2 := Nat.choose_le_choose 2 h

theorem choose_two_succ (n : Nat) : (n + 1).choose 2 = n + n.choose 2 := by
  rw [Nat.choose_succ_succ' n 1, Nat.choose_one_right]

/-- From a map that is not larger, with the next key at the front of what is behind, fewer visits are left. -/
theorem visitsLeft_first_le {keys keys' a b : List κ} (hkeys : keys = a ++ b) (hsub : keys'.Sublist keys)
    (hnodup : keys.Nodup) : visitsLeft keys' (BoundedMap.first b) ≤ keys.length.choose 2 + b.length := by
  cases b with
  | nil => exact Nat.zero_le _
  | cons k b =>
    subst hkeys
    by_cases hk : k ∈ keys'
    · obtain ⟨a', b', hkeys', ha', hb'⟩ := split_of_sublist hsub hnodup hk
      rw [BoundedMap.first, visitsLeft_of_split hkeys' (hnodup.sublist hsub)]
      exact Nat.add_le_add (choose_two_mono hsub.length_le) (Nat.succ_le_succ hb'.length_le)
    · have hlt : keys'.length < (a ++ k :: b).length := by
        refine lt_of_le_of_ne hsub.length_le fun heq => hk ?_
        rw [hsub.eq_of_length heq]
        simp
      rw [BoundedMap.first, visitsLeft_of_not_mem hk]
      have hchoose : (keys'.length + 1).choose 2 ≤ (a ++ k :: b).length.choose 2 := choose_two_mono hlt
      rw [List.length_cons]
      omega

theorem visitsLeft_restart_le {keys keys' : List κ} (hsub : keys'.Sublist keys) (hnodup : keys.Nodup) :
    visitsLeft keys' (BoundedMap.first keys) ≤ (keys.length + 1).choose 2 := by
  have hle := visitsLeft_first_le (List.nil_append keys).symm hsub hnodup
  rw [choose_two_succ]
  omega

omit [DecidableEq κ] in
/-- The first of the keys that are to come is the next one to ask for. -/
theorem covers_first {all a b : List κ} {s t : State κ ν cap σ} (hkeys : s.map.keys = a ++ b)
    (hsub : t.map.keys.Sublist s.map.keys) (hall : s.map.keys.Sublist all) (hseen : ∀ k ∈ a, k ∈ seen t.caller)
    (hvisited : ∀ k ∈ seen t.caller, k ∈ all) : Covers seen all t (BoundedMap.first b) := by
  have hnodup : (a ++ b).Nodup := hkeys ▸ s.map.entries.keys_nodup
  rw [hkeys] at hsub hall
  refine ⟨hsub.trans hall, hvisited, fun k hnext => ?_, fun k hnext hk => ?_, fun e hnext => ?_⟩
  · cases b with
    | nil => cases hnext
    | cons k' b =>
      cases hnext
      exact hall.subset (by simp)
  · cases b with
    | nil => cases hnext
    | cons k' b =>
      cases hnext
      obtain ⟨a', b', hkeys', ha', -⟩ := split_of_sublist hsub hnodup hk
      exact ⟨a', b', hkeys', fun k' hk' => hseen k' (ha'.subset hk')⟩
  · cases b with
    | nil =>
      cases hnext
      rw [List.append_nil] at hsub
      exact ⟨rfl, fun k hk => hseen k (hsub.subset hk)⟩
    | cons k' b => cases hnext

/-- A visit brings the iteration on, whether the next key is still there or the iteration starts over. -/
theorem covers_visit {visit : κ → Prog κ ν cap σ PUnit} (hvisit : Shrinks seen visit) {all : List κ}
    {s : State κ ν cap σ} {k : κ} (h : Covers seen all s (.ok k)) :
    Covers seen all (after ((visit k).run s)) (s.map.nextKey (some k)) ∧
      visitsLeft (after ((visit k).run s)).map.keys (s.map.nextKey (some k)) < visitsLeft s.map.keys (.ok k) := by
  obtain ⟨hsub, hseen⟩ := hvisit k s
  have hvisited : ∀ k' ∈ seen (after ((visit k).run s)).caller, k' ∈ all := by
    intro k' hk'
    rw [hseen, List.mem_append, List.mem_singleton] at hk'
    exact hk'.elim (h.visited k') fun heq => heq ▸ h.present k rfl
  have hnodup : s.map.keys.Nodup := s.map.entries.keys_nodup
  by_cases hk : k ∈ s.map.keys
  · obtain ⟨a, b, hkeys, hbefore⟩ := h.before k rfl hk
    have hkeys' : s.map.keys = (a ++ [k]) ++ b := hkeys.trans (List.append_cons a k b)
    rw [nextKey_of_split hkeys, visitsLeft_of_split hkeys hnodup]
    refine ⟨covers_first hkeys' hsub h.keys (fun k' hk' => ?_) hvisited, ?_⟩
    · rw [hseen, List.mem_append]
      exact (List.mem_append.mp hk').imp (hbefore k') id
    · exact Nat.lt_succ_of_le (visitsLeft_first_le hkeys' hsub hnodup)
  · rw [nextKey_of_not_mem hk, visitsLeft_of_not_mem hk]
    refine ⟨covers_first (a := []) rfl hsub h.keys (by simp) hvisited, ?_⟩
    exact Nat.lt_succ_of_le (visitsLeft_restart_le hsub hnodup)

/-- What an iteration comes to while others delete. -/
structure Iterated (seen : σ → List κ) (visit : κ → Prog κ ν cap σ PUnit) (all : List κ) (bound : Nat)
    (run : EStateM.Result Errno (State κ ν cap σ) Bool) : Prop where
  visited : ∀ k ∈ seen (after run).caller, k ∈ all
  length_le : (seen (after run).caller).length ≤ bound
  ends : (∃ s', run = .ok true s' ∧ ∀ k ∈ s'.map.keys, k ∈ seen s'.caller) ∨
    ∃ key t e s', run = .error e s' ∧ (visit key).run t = .error e s'

theorem iterateFrom_shrinks {visit : κ → Prog κ ν cap σ PUnit} (hvisit : Shrinks seen visit) {all : List κ} :
    ∀ {fuel : Nat} {next : Except Errno κ} {s : State κ ν cap σ}, Covers seen all s next →
    visitsLeft s.map.keys next < fuel → Iterated seen visit all ((seen s.caller).length + visitsLeft s.map.keys next)
      ((iterateFrom visit fuel next).run s)
  | 0, _, _, _, hfuel => absurd hfuel (Nat.not_lt_zero _)
  | _ + 1, .error e, s, h, _ => by
    obtain ⟨rfl, hdone⟩ := h.done e rfl
    exact ⟨h.visited, Nat.le_add_right _ _, .inl ⟨s, rfl, hdone⟩⟩
  | fuel + 1, .ok k, s, h, hfuel => by
    obtain ⟨hcovers, hless⟩ := covers_visit hvisit h
    have hseen : seen (after ((visit k).run s)).caller = seen s.caller ++ [k] := (hvisit k s).2
    rw [iterateFrom, EStateM.run_bind, run_getNextKey]
    dsimp only
    rw [EStateM.run_bind]
    cases hrun : (visit k).run s with
    | error e t =>
      rw [hrun] at hcovers hless hseen
      refine ⟨hcovers.visited, ?_, .inr ⟨k, s, e, t, rfl, hrun⟩⟩
      rw [after_error] at hseen hless
      rw [after_error, hseen, List.length_append, List.length_singleton]
      omega
    | ok u t =>
      rw [hrun] at hcovers hless hseen
      rw [after_ok] at hcovers hless hseen
      obtain ⟨hvisited, hlength, hends⟩ := iterateFrom_shrinks hvisit hcovers (by omega : _ < fuel)
      rw [hseen, List.length_append, List.length_singleton] at hlength
      exact ⟨hvisited, hlength.trans (by omega), hends⟩

/-- While keys are deleted at any time, by anyone, `iterate` ends with every key visited that is still there, or with the
    error of the filter. A key may be visited again, but `n` keys take no more than `n (n + 1) / 2` visits. The first
    clause places `iterate` itself; in the second keys may have gone since the first was fetched. -/
theorem iterate_while_deleted {visit : κ → Prog κ ν cap σ PUnit} (hvisit : Shrinks seen visit) (s₀ s : State κ ν cap σ)
    (hsub : s.map.keys.Sublist s₀.map.keys) (hseen : seen s.caller = []) {fuel : Nat}
    (hfuel : (s₀.map.keys.length + 1).choose 2 < fuel) :
    (iterate fuel visit).run s₀ = (iterateFrom visit fuel (BoundedMap.first s₀.map.keys)).run s₀ ∧
      Iterated seen visit s₀.map.keys ((s₀.map.keys.length + 1).choose 2)
        ((iterateFrom visit fuel (BoundedMap.first s₀.map.keys)).run s) := by
  refine ⟨by rw [iterate, EStateM.run_bind, run_getFirstKey], ?_⟩
  have hnone : ∀ k ∈ seen s.caller, k ∈ s₀.map.keys := by simp [hseen]
  have hcovers : Covers seen s₀.map.keys s (BoundedMap.first s₀.map.keys) :=
    covers_first (a := []) rfl hsub (List.Sublist.refl _) (by simp) hnone
  have hleft : visitsLeft s.map.keys (BoundedMap.first s₀.map.keys) ≤ (s₀.map.keys.length + 1).choose 2 :=
    visitsLeft_restart_le hsub s₀.map.entries.keys_nodup
  obtain ⟨hvisited, hlength, hends⟩ := iterateFrom_shrinks hvisit hcovers (lt_of_le_of_lt hleft hfuel)
  rw [hseen, List.length_nil, Nat.zero_add] at hlength
  exact ⟨hvisited, hlength.trans hleft, hends⟩

/-! ### Others delete while values are read -/

/-- A step of others: it deletes keys, and the filter does not notice. -/
def Disturbs (disturb : κ → Prog κ ν cap σ PUnit) : Prop :=
  ∀ key s, ∃ t, (disturb key).run s = .ok ⟨⟩ t ∧ t.map.keys.Sublist s.map.keys ∧ t.caller = s.caller

/-- The same of a filter that is given the value of the key, which is there when it is called. -/
def ShrinksGiven (seen : σ → List κ) (filter : κ → ν → Prog κ ν cap σ PUnit) : Prop :=
  ∀ key value s, s.map.lookup key = some value →
    (after ((filter key value).run s)).map.keys.Sublist s.map.keys ∧
      seen (after ((filter key value).run s)).caller = seen s.caller ++ [key]

/-- Nothing is visited twice: what has been visited and what is to come lie in the order of the keys. -/
structure InOrder (seen : σ → List κ) (all : List κ) (s : State κ ν cap σ) (next : Except Errno κ) : Prop where
  once : (seen s.caller).Sublist all
  gone : ∀ k, next = .ok k → (seen s.caller ++ [k]).Sublist all
  present : ∀ k, next = .ok k → k ∈ s.map.keys → ∃ a b, s.map.keys = a ++ k :: b ∧
    (seen s.caller ++ k :: b).Sublist all ∧ ∀ k' ∈ a, k' ∈ seen s.caller
  done : ∀ e, next = .error e → e = .noEntry ∧ ∀ k ∈ s.map.keys, k ∈ seen s.caller

omit [DecidableEq κ] in
theorem inOrder_first {all a b : List κ} {s t : State κ ν cap σ} (hkeys : s.map.keys = a ++ b)
    (hsub : t.map.keys.Sublist s.map.keys) (hseen : ∀ k ∈ a, k ∈ seen t.caller)
    (hall : (seen t.caller ++ b).Sublist all) : InOrder seen all t (BoundedMap.first b) := by
  have hnodup : (a ++ b).Nodup := hkeys ▸ s.map.entries.keys_nodup
  rw [hkeys] at hsub
  refine ⟨(List.sublist_append_left _ _).trans hall, fun k hnext => ?_, fun k hnext hk => ?_, fun e hnext => ?_⟩
  · cases b with
    | nil => cases hnext
    | cons k' b =>
      cases hnext
      exact (List.Sublist.append_left (List.Sublist.cons_cons k (List.nil_sublist b)) _).trans hall
  · cases b with
    | nil => cases hnext
    | cons k' b =>
      cases hnext
      obtain ⟨a', b', hkeys', ha', hb'⟩ := split_of_sublist hsub hnodup hk
      exact ⟨a', b', hkeys', (List.Sublist.append_left (hb'.cons_cons k) _).trans hall,
        fun k' hk' => hseen k' (ha'.subset hk')⟩
  · cases b with
    | nil =>
      cases hnext
      rw [List.append_nil] at hsub
      exact ⟨rfl, fun k hk => hseen k (hsub.subset hk)⟩
    | cons k' b => cases hnext

/-- What an iteration over keys and values comes to while others delete. -/
structure IteratedWithValue (seen : σ → List κ) (filter : κ → ν → Prog κ ν cap σ PUnit) (all : List κ)
    (run : EStateM.Result Errno (State κ ν cap σ) Bool) : Prop where
  once : (seen (after run).caller).Sublist all
  ends : (∃ s', run = .ok true s' ∧ ∀ k ∈ s'.map.keys, k ∈ seen s'.caller) ∨
    (∃ key value t e s', run = .error e s' ∧ (filter key value).run t = .error e s') ∨
    ∃ s', run = .error .noEntry s' ∧ ∃ key ∈ all, key ∉ s'.map.keys ∧ key ∉ seen s'.caller

variable {disturb : κ → Prog κ ν cap σ PUnit} {filter : κ → ν → Prog κ ν cap σ PUnit}

/-- A key that is gone when its value is read ends the iteration. -/
theorem run_visitValue_of_not_mem {k : κ} {s : State κ ν cap σ} (h : k ∉ s.map.keys) :
    (visitValue filter k).run s = .error .noEntry s := by
  have hread : (readValue k).run s = .error .noEntry s := by
    rw [readValue, run_get_bind, BoundedMap.lookup_eq_none.mpr h]
    rfl
  rw [visitValue, EStateM.run_bind, hread]

theorem iterateFrom_shrinksGiven (hdisturb : Disturbs disturb) (hfilter : ShrinksGiven seen filter) {all : List κ}
    (hnodup : all.Nodup) : ∀ {fuel : Nat} {next : Except Errno κ} {s : State κ ν cap σ}, InOrder seen all s next →
    all.length < fuel + (seen s.caller).length → IteratedWithValue seen filter all
      ((iterateFrom (fun key => disturb key >>= fun _ => visitValue filter key) fuel next).run s)
  | 0, _, _, h, hfuel => absurd (h.once.length_le) (by omega)
  | _ + 1, .error e, s, h, _ => by
    obtain ⟨rfl, hdone⟩ := h.done e rfl
    exact ⟨h.once, .inl ⟨s, rfl, hdone⟩⟩
  | fuel + 1, .ok k, s, h, hfuel => by
    obtain ⟨s₁, hrun₁, hsub₁, hcaller⟩ := hdisturb k s
    rw [iterateFrom, EStateM.run_bind, run_getNextKey]
    dsimp only
    rw [EStateM.run_bind, EStateM.run_bind, hrun₁]
    dsimp only
    by_cases hk : k ∈ s₁.map.keys
    · obtain ⟨a, b, hkeys, hall, hbefore⟩ := h.present k rfl (hsub₁.subset hk)
      obtain ⟨v, hv⟩ := Option.isSome_iff_exists.mp (BoundedMap.lookup_isSome.mpr hk)
      obtain ⟨hsub, hseen⟩ := hfilter k v s₁ hv
      rw [run_visitValue hv, nextKey_of_split hkeys]
      rw [hcaller] at hseen
      cases hrun : (filter k v).run s₁ with
      | error e t =>
        rw [hrun, after_error] at hseen
        exact ⟨by rw [after_error, hseen]; exact h.gone k rfl, .inr (.inl ⟨k, v, s₁, e, t, rfl, hrun⟩)⟩
      | ok u t =>
        rw [hrun, after_ok] at hsub hseen
        have hkeys' : s.map.keys = (a ++ [k]) ++ b := hkeys.trans (List.append_cons a k b)
        refine iterateFrom_shrinksGiven hdisturb hfilter hnodup
          (inOrder_first hkeys' (hsub.trans hsub₁) (fun k' hk' => ?_) ?_) ?_
        · rw [hseen, List.mem_append]
          exact (List.mem_append.mp hk').imp (hbefore k') id
        · rw [hseen, ← List.append_cons]
          exact hall
        · rw [hseen, List.length_append, List.length_singleton]
          omega
    · rw [run_visitValue_of_not_mem hk]
      have hgone : (seen s.caller ++ [k]).Sublist all := h.gone k rfl
      have hnot : k ∉ seen s.caller := fun hmem =>
        (List.nodup_append.mp (hnodup.sublist hgone)).2.2 k hmem k (List.mem_singleton_self k) rfl
      rw [← hcaller] at hnot
      refine ⟨by rw [after_error, hcaller]; exact h.once, .inr (.inr ⟨s₁, rfl, k, hgone.subset (by simp), hk, hnot⟩)⟩

/-- While keys are deleted at any time, by anyone, `iterateWithValue` visits no key twice and keeps to their order. It
    ends with every key visited that is still there, or with the error of the filter, or with the error for a key that
    was gone when its value was to be read and that it has not visited. -/
theorem iterateWithValue_while_deleted (hdisturb : Disturbs disturb) (hfilter : ShrinksGiven seen filter)
    (s₀ s : State κ ν cap σ) (hsub : s.map.keys.Sublist s₀.map.keys) (hseen : seen s.caller = []) {fuel : Nat}
    (hfuel : s₀.map.keys.length < fuel) :
    (iterateWithValue fuel filter).run s₀ =
        (iterateFrom (fun key => visitValue filter key) fuel (BoundedMap.first s₀.map.keys)).run s₀ ∧
      IteratedWithValue seen filter s₀.map.keys
        ((iterateFrom (fun key => disturb key >>= fun _ => visitValue filter key) fuel
          (BoundedMap.first s₀.map.keys)).run s) := by
  refine ⟨by rw [iterateWithValue, EStateM.run_bind, run_getFirstKey]; rfl, ?_⟩
  have hstart : InOrder seen s₀.map.keys s (BoundedMap.first s₀.map.keys) :=
    inOrder_first (List.nil_append _).symm hsub (by simp) (by rw [hseen, List.nil_append])
  exact iterateFrom_shrinksGiven hdisturb hfilter s₀.map.entries.keys_nodup hstart (by rw [hseen]; exact hfuel)

/-- Notes a key, while someone deletes another. -/
def noteWhileDeleted (victim key : κ) : Prog κ ν cap (List κ) PUnit := do
  modify fun s => { s with caller := s.caller ++ [key] }
  let _ ← attempt (deleteValue victim)
  pure ⟨⟩

theorem shrinks_noteWhileDeleted (victim : κ) : Shrinks id (noteWhileDeleted victim : κ → Prog κ ν cap (List κ) PUnit) := by
  intro k s
  by_cases hk : victim ∈ s.map.keys
  · obtain ⟨m, hm, hentries⟩ := BoundedMap.delete_of_mem hk
    have hrun : (noteWhileDeleted victim k).run s = .ok ⟨⟩ ⟨m, s.caller ++ [k]⟩ := by
      rw [noteWhileDeleted, run_modify_bind, EStateM.run_bind, run_attempt, deleteValue, run_get_bind, hm]
      rfl
    rw [hrun]
    refine ⟨?_, rfl⟩
    rw [after_ok, BoundedMap.keys, hentries, AList.keys_erase]
    exact List.erase_sublist
  · have hrun : (noteWhileDeleted victim k).run s = .ok ⟨⟩ ⟨s.map, s.caller ++ [k]⟩ := by
      rw [noteWhileDeleted, run_modify_bind, EStateM.run_bind, run_attempt, deleteValue, run_get_bind,
        BoundedMap.delete_of_not_mem hk]
      rfl
    rw [hrun]
    exact ⟨List.Sublist.refl _, rfl⟩

end Shrinking

def twoKeys : State Nat Char 5 (List Nat) := ⟨twoEntries.map, []⟩

/-- The first key is visited again, and the bound is reached. -/
theorem iterate_while_deleted_twice : Iterated id (noteWhileDeleted 3) [7, 3] 3
      ((iterateFrom (noteWhileDeleted 3) 4 (.ok 7)).run twoKeys) ∧
    (after ((iterateFrom (noteWhileDeleted 3) 4 (.ok 7)).run twoKeys)).caller = [7, 3, 7] := by
  have hfuel : (twoKeys.map.keys.length + 1).choose 2 < 4 := by decide
  exact ⟨(iterate_while_deleted (shrinks_noteWhileDeleted 3) twoKeys twoKeys (List.Sublist.refl _) rfl hfuel).2, rfl⟩

/-- The same keys with their values: the second is not found. -/
theorem iterateWithValue_while_deleted_once : IteratedWithValue id (fun key _ => noteWhileDeleted 3 key) [7, 3]
      ((iterateFrom (fun key => pure PUnit.unit >>= fun _ => visitValue (fun key _ => noteWhileDeleted 3 key) key) 3
        (.ok 7)).run twoKeys) ∧
    (after ((iterateWithValue 3 fun key _ => noteWhileDeleted 3 key).run twoKeys)).caller = [7] := by
  have hfuel : twoKeys.map.keys.length < 3 := by decide
  have hdisturb : Disturbs (fun _ => pure ⟨⟩ : Nat → Prog Nat Char 5 (List Nat) PUnit) :=
    fun _ s => ⟨s, rfl, List.Sublist.refl _, rfl⟩
  have hfilter : ShrinksGiven id (fun key _ => noteWhileDeleted 3 key : Nat → Char → Prog Nat Char 5 (List Nat) PUnit) :=
    fun key _ s _ => shrinks_noteWhileDeleted 3 key s
  exact ⟨(iterateWithValue_while_deleted hdisturb hfilter twoKeys twoKeys (List.Sublist.refl _) rfl hfuel).2, rfl⟩

end UprobeStats.Cxx.BpfMap
