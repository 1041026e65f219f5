import Mathlib.Data.Finset.Card
import Mathlib.Data.List.AList

/-! A hash map with room for a fixed number of entries, and the operations that the BPF system call has
    on it. -/

inductive Errno where
  | exist
  | noEntry
  | tooBig
  deriving DecidableEq, Repr

inductive UpdateFlag where
  | any
  | noExist
  | exist
  deriving DecidableEq, Repr

structure BoundedMap (κ ν : Type) (cap : Nat) where
  entries : AList fun _ : κ => ν
  length_le : entries.keys.length ≤ cap

namespace BoundedMap
variable {κ ν : Type} {cap : Nat}

def empty : BoundedMap κ ν cap := ⟨∅, Nat.zero_le _⟩

def keys (m : BoundedMap κ ν cap) : List κ := m.entries.keys

theorem ext {m n : BoundedMap κ ν cap} (h : m.entries = n.entries) : m = n := by
  cases m
  cases n
  cases h
  rfl

theorem eq_empty_iff {m : BoundedMap κ ν cap} : m = empty ↔ m.keys = [] := by
  constructor
  · rintro rfl
    rfl
  · intro h
    refine ext (AList.ext ?_)
    exact List.map_eq_nil_iff.mp h

theorem mem_keys {m : BoundedMap κ ν cap} {k : κ} : k ∈ m.keys ↔ k ∈ m.entries := Iff.rfl

variable [DecidableEq κ]

def lookup (m : BoundedMap κ ν cap) (k : κ) : Option ν := m.entries.lookup k

def update (m : BoundedMap κ ν cap) (k : κ) (v : ν) (flag : UpdateFlag) : Except Errno (BoundedMap κ ν cap) :=
  if hk : k ∈ m.entries then
    if flag = .noExist then .error .exist
    else .ok ⟨m.entries.insert k v, by
      have := m.length_le
      rw [AList.keys_insert, List.length_cons, List.length_erase_of_mem hk]
      have := List.length_pos_of_mem hk
      omega⟩
  else if flag = .exist then .error .noEntry
  else if hsize : m.entries.keys.length < cap then
    .ok ⟨m.entries.insert k v, by rw [AList.keys_insert, List.erase_of_not_mem hk, List.length_cons]; omega⟩
  else .error .tooBig

def delete (m : BoundedMap κ ν cap) (k : κ) : Except Errno (BoundedMap κ ν cap) :=
  if k ∈ m.entries then
    .ok ⟨m.entries.erase k, le_trans (by rw [AList.keys_erase]; exact List.length_erase_le) m.length_le⟩
  else .error .noEntry

/-- The first of some keys. -/
def first : List κ → Except Errno κ
  | [] => .error .noEntry
  | k :: _ => .ok k

/-- The key behind a present one in the order of the map; the first key behind none or an absent one. -/
def nextKey (m : BoundedMap κ ν cap) : Option κ → Except Errno κ
  | none => first m.keys
  | some k => first (if k ∈ m.keys then (m.keys.dropWhile (· ≠ k)).tail else m.keys)

section Lemmas
variable {m n : BoundedMap κ ν cap} {k k' : κ} {v : ν} {flag : UpdateFlag}

theorem lookup_eq_none : m.lookup k = none ↔ k ∉ m.keys := AList.lookup_eq_none

theorem lookup_isSome : (m.lookup k).isSome ↔ k ∈ m.keys := AList.lookup_isSome

@[simp] theorem lookup_empty : (empty : BoundedMap κ ν cap).lookup k = none := AList.lookup_empty _

theorem update_eq_ok (h : m.update k v flag = .ok n) :
    n.entries = m.entries.insert k v ∧ (flag = .noExist → k ∉ m.keys) := by
  unfold update at h
  split at h
  · split at h
    · cases h
    · cases h
      exact ⟨rfl, fun hf => absurd hf ‹_›⟩
  · split at h
    · cases h
    · split at h
      · cases h
        exact ⟨rfl, fun _ => ‹_›⟩
      · cases h

theorem exists_update (hk : k ∉ m.keys) (hflag : flag ≠ .exist) (hsize : m.keys.length < cap) :
    ∃ n, m.update k v flag = .ok n := by
  have hk' : ¬k ∈ m.entries := hk
  have hsize' : m.entries.keys.length < cap := hsize
  simp [update, hk', hflag, hsize']

theorem update_noExist_of_mem (hk : k ∈ m.keys) : m.update k v .noExist = .error .exist := by
  have hk' : k ∈ m.entries := hk
  simp [update, hk']

theorem lookup_update (h : m.update k v flag = .ok n) : n.lookup k = some v := by
  rw [lookup, (update_eq_ok h).1, AList.lookup_insert]

theorem lookup_update_ne (h : m.update k v flag = .ok n) (hne : k' ≠ k) : n.lookup k' = m.lookup k' := by
  rw [lookup, (update_eq_ok h).1, AList.lookup_insert_ne hne, lookup]

theorem mem_keys_update (h : m.update k v flag = .ok n) : k' ∈ n.keys ↔ k' = k ∨ k' ∈ m.keys := by
  rw [mem_keys, (update_eq_ok h).1, AList.mem_insert, mem_keys]

/-- After an insertion into a map with room the key is there, whether it was inserted or found. -/
theorem mem_keys_getD_update (hsize : m.keys.length < cap) :
    k' ∈ ((m.update k v .noExist).toOption.getD m).keys ↔ k' = k ∨ k' ∈ m.keys := by
  by_cases hk : k ∈ m.keys
  · rw [update_noExist_of_mem hk]
    exact ⟨.inr, fun h => h.elim (fun heq => heq ▸ hk) id⟩
  · obtain ⟨n, hn⟩ := exists_update (v := v) hk (show UpdateFlag.noExist ≠ .exist by decide) hsize
    rw [hn]
    exact mem_keys_update hn

theorem delete_of_mem (hk : k ∈ m.keys) : ∃ n, m.delete k = .ok n ∧ n.entries = m.entries.erase k := by
  have hk' : k ∈ m.entries := hk
  simp [delete, hk']

theorem delete_of_not_mem (hk : k ∉ m.keys) : m.delete k = .error .noEntry := by
  have hk' : ¬k ∈ m.entries := hk
  simp [delete, hk']

theorem delete_eq_ok (h : m.delete k = .ok n) : k ∈ m.keys ∧ n.entries = m.entries.erase k := by
  unfold delete at h
  split at h
  · cases h
    exact ⟨‹_›, rfl⟩
  · cases h

theorem mem_keys_delete (h : m.delete k = .ok n) : k' ∈ n.keys ↔ k' ≠ k ∧ k' ∈ m.keys := by
  rw [mem_keys, (delete_eq_ok h).2, AList.mem_erase, mem_keys]

theorem length_delete (h : m.delete k = .ok n) : n.keys.length + 1 = m.keys.length := by
  obtain ⟨hk, hn⟩ := delete_eq_ok h
  have hk' : k ∈ m.entries.keys := hk
  have hpos := List.length_pos_of_mem hk'
  rw [keys, hn, AList.keys_erase, List.length_erase_of_mem hk', keys]
  omega

theorem nextKey_head {ks : List κ} (h : m.keys = k :: ks) : m.nextKey (some k) = first ks := by
  have hdrop : (k :: ks).dropWhile (· ≠ k) = k :: ks := List.dropWhile_cons_of_neg (by simp)
  rw [nextKey, h, if_pos (List.mem_cons_self ..), hdrop, List.tail_cons]

end Lemmas

/-! ### Partial functions

    A map that is only used under the codes of some keys is a partial function on these keys. -/

section Represents
variable {α β : Type}

/-- An update of a partial function. -/
def updated [DecidableEq α] (f : α → Option β) (a : α) (b : β) (flag : UpdateFlag) : Except Errno (α → Option β) :=
  if (f a).isSome then
    if flag = .noExist then .error .exist else .ok (Function.update f a (some b))
  else if flag = .exist then .error .noEntry
  else .ok (Function.update f a (some b))

theorem updated_eq_ok [DecidableEq α] {f g : α → Option β} {a : α} {b : β} {flag : UpdateFlag}
    (h : updated f a b flag = .ok g) : g = Function.update f a (some b) := by
  unfold updated at h
  split_ifs at h
  all_goals cases h; rfl

/-- The entries of the map are the codes of those of `f`, whose keys are in `K`. -/
structure Represents (enc : α → κ) (encVal : β → ν) (K : Finset α) (f : α → Option β) (m : BoundedMap κ ν cap) :
    Prop where
  mem_of_isSome : ∀ a, (f a).isSome → a ∈ K
  exists_of_mem : ∀ k ∈ m.keys, ∃ a ∈ K, enc a = k
  lookup_eq : ∀ a ∈ K, m.lookup (enc a) = (f a).map encVal

namespace Represents
variable {enc : α → κ} {encVal : β → ν} {K : Finset α} {f : α → Option β} {m n : BoundedMap κ ν cap} {a : α} {b : β}

theorem mem_keys_iff (h : Represents enc encVal K f m) (ha : a ∈ K) : enc a ∈ m.keys ↔ (f a).isSome := by
  rw [← lookup_isSome, h.lookup_eq a ha, Option.isSome_map]

theorem of_empty : Represents enc encVal K (fun _ => none) (empty : BoundedMap κ ν cap) where
  mem_of_isSome _ h := by cases h
  exists_of_mem k hk := by cases hk
  lookup_eq _ _ := lookup_empty

/-- A key of `K` that is not there leaves room for it. -/
theorem length_lt (h : Represents enc encVal K f m) (ha : a ∈ K) (hnot : f a = none) (hroom : K.card ≤ cap) :
    m.keys.length < cap := by
  have hnew : enc a ∉ m.keys := fun hmem => by simpa [hnot] using (h.mem_keys_iff ha).mp hmem
  have hsubset : (enc a :: m.keys).toFinset ⊆ K.image enc := by
    intro k hk
    rw [List.mem_toFinset, List.mem_cons] at hk
    rcases hk with rfl | hk
    · exact Finset.mem_image_of_mem _ ha
    · obtain ⟨a', ha', rfl⟩ := h.exists_of_mem k hk
      exact Finset.mem_image_of_mem _ ha'
  have hcard := Finset.card_le_card hsubset
  have hnodup : (enc a :: m.keys).Nodup := List.nodup_cons.mpr ⟨hnew, m.entries.keys_nodup⟩
  rw [List.toFinset_card_of_nodup hnodup, List.length_cons] at hcard
  have himage : (K.image enc).card ≤ K.card := Finset.card_image_le
  omega

variable [DecidableEq α]

theorem of_update (h : Represents enc encVal K f m) (hinj : Set.InjOn enc K) (ha : a ∈ K) {flag : UpdateFlag}
    (hn : m.update (enc a) (encVal b) flag = .ok n) :
    Represents enc encVal K (Function.update f a (some b)) n where
  mem_of_isSome a' ha' := by
    by_cases heq : a' = a
    · exact heq ▸ ha
    · rw [Function.update_of_ne heq] at ha'
      exact h.mem_of_isSome a' ha'
  exists_of_mem k hk := by
    rcases (mem_keys_update hn).mp hk with rfl | hk
    · exact ⟨a, ha, rfl⟩
    · exact h.exists_of_mem k hk
  lookup_eq a' ha' := by
    by_cases heq : a' = a
    · rw [heq, lookup_update hn, Function.update_self, Option.map_some]
    · rw [lookup_update_ne hn fun henc => heq (hinj ha' ha henc), Function.update_of_ne heq, h.lookup_eq a' ha']

/-- With room for all of `K` the map is updated as the function is, and fails as it does. -/
theorem update (h : Represents enc encVal K f m) (hinj : Set.InjOn enc K) (hroom : K.card ≤ cap) (ha : a ∈ K)
    (b : β) (flag : UpdateFlag) :
    (∃ g n, updated f a b flag = .ok g ∧ m.update (enc a) (encVal b) flag = .ok n ∧ Represents enc encVal K g n) ∨
      ∃ e, updated f a b flag = .error e ∧ m.update (enc a) (encVal b) flag = .error e := by
  have hmem := h.mem_keys_iff ha
  cases hf : f a with
  | some b' =>
    rw [hf] at hmem
    have hkey : enc a ∈ m.entries := hmem.mpr rfl
    by_cases hflag : flag = .noExist
    · exact .inr ⟨.exist, by simp [updated, hf, hflag], by simp [BoundedMap.update, hkey, hflag]⟩
    · have hn : ∃ n, m.update (enc a) (encVal b) flag = .ok n := by simp [BoundedMap.update, hkey, hflag]
      obtain ⟨n, hn⟩ := hn
      exact .inl ⟨_, n, by simp [updated, hf, hflag], hn, h.of_update hinj ha hn⟩
  | none =>
    rw [hf] at hmem
    have hkey : enc a ∉ m.entries := fun hk => by simpa using hmem.mp hk
    by_cases hflag : flag = .exist
    · exact .inr ⟨.noEntry, by simp [updated, hf, hflag], by simp [BoundedMap.update, hkey, hflag]⟩
    · obtain ⟨n, hn⟩ := exists_update (v := encVal b) hkey hflag (h.length_lt ha hf hroom)
      exact .inl ⟨_, n, by simp [updated, hf, hflag], hn, h.of_update hinj ha hn⟩

theorem delete (h : Represents enc encVal K f m) (hinj : Set.InjOn enc K) (ha : a ∈ K) :
    (f a = none ∧ m.delete (enc a) = .error .noEntry) ∨
      ((f a).isSome ∧ ∃ n, m.delete (enc a) = .ok n ∧ Represents enc encVal K (Function.update f a none) n) := by
  cases hf : f a with
  | none =>
    refine .inl ⟨rfl, delete_of_not_mem fun hk => ?_⟩
    simpa [hf] using (h.mem_keys_iff ha).mp hk
  | some b =>
    obtain ⟨n, hn, hentries⟩ := delete_of_mem ((h.mem_keys_iff ha).mpr (hf ▸ rfl))
    refine .inr ⟨rfl, n, hn, ?_, ?_, ?_⟩
    · intro a' ha'
      by_cases heq : a' = a
      · exact heq ▸ ha
      · rw [Function.update_of_ne heq] at ha'
        exact h.mem_of_isSome a' ha'
    · exact fun k hk => h.exists_of_mem k ((mem_keys_delete hn).mp hk).2
    · intro a' ha'
      by_cases heq : a' = a
      · rw [heq, Function.update_self, lookup, hentries, AList.lookup_erase, Option.map_none]
      · have hne : enc a' ≠ enc a := fun henc => heq (hinj ha' ha henc)
        rw [lookup, hentries, AList.lookup_erase_ne hne, Function.update_of_ne heq]
        exact h.lookup_eq a' ha'

end Represents
end Represents
end BoundedMap
