import UprobeStats.Theorems.Requests

/-! The filter map and its codec. `drain` deletes a key under the string that it reads from it, so it can
    delete exactly the keys that survive the way through a string and back. -/

namespace UprobeStats
open Rust Effect Text

/-! ### The codec -/

/-- The first 128 bytes of the name are a C string with nothing behind its end. -/
def CleanName (name : String) : Prop :=
  ∃ string zeros, (utf8 name).take 128 = string ++ List.replicate zeros 0 ∧ 0 ∉ string ∧ string.length < 128

/-- The key is found again under the string that is read from it. -/
def BinderInterfaceBpfMapKey.Clean (key : BinderInterfaceBpfMapKey) : Prop := toCKey (fromCKey key) = key

section Codec
variable {name : String} {key : BinderInterfaceBpfMapKey}

theorem BinderInterfaceBpfMapKey.ext {k k' : BinderInterfaceBpfMapKey}
    (h : k.interfaceDescriptor.bytes = k'.interfaceDescriptor.bytes) : k = k' := by
  cases k
  cases k'
  exact congrArg _ (Chars.ext h)

theorem toCKey_bytes (name : String) : (toCKey name).interfaceDescriptor.bytes =
    (utf8 name).take 128 ++ List.replicate (128 - ((utf8 name).take 128).length) 0 := by
  have hle : ((utf8 name).take 128).length ≤ 128 := by simp
  rw [toCKey, Chars.write_bytes hle, Chars.zeros, List.drop_replicate]

theorem fromCKey_spec (key : BinderInterfaceBpfMapKey) :
    0 ∉ utf8 (fromCKey key) ∧ (utf8 (fromCKey key)).length < 128 := by
  unfold fromCKey
  cases hs : bytesAsStr key.interfaceDescriptor with
  | error e => exact ⟨List.not_mem_nil, Nat.zero_lt_succ _⟩
  | ok s =>
    obtain ⟨h0, rest, hbytes⟩ := untilNul_eq_some.mp (bytesAsStr_eq_ok.mp hs)
    have hlen : key.interfaceDescriptor.bytes.length = 128 := key.interfaceDescriptor.length_eq
    rw [hbytes, List.length_append, List.length_cons] at hlen
    refine ⟨h0, ?_⟩
    dsimp only
    omega

theorem cleanName_of_short (h0 : 0 ∉ utf8 name) (hlen : (utf8 name).length < 128) : CleanName name :=
  ⟨utf8 name, 0, by rw [List.take_of_length_le (by omega), List.replicate_zero, List.append_nil], h0, hlen⟩

theorem fromCKey_toCKey_of_string {string : List UInt8} {zeros : Nat}
    (hbytes : (toCKey name).interfaceDescriptor.bytes = string ++ List.replicate (zeros + 1) 0) (h0 : 0 ∉ string)
    {t : String} (ht : utf8 t = string) : fromCKey (toCKey name) = t := by
  have hread : bytesAsStr (toCKey name).interfaceDescriptor = .ok t := by
    rw [bytesAsStr_eq_ok, hbytes, ht, List.replicate_succ, untilNul_append_zero h0]
  rw [fromCKey, hread]

/-- A name gives a clean key exactly when it is clean. -/
theorem clean_toCKey_iff : (toCKey name).Clean ↔ CleanName name := by
  constructor
  · intro hclean
    obtain ⟨h0, hlen⟩ := fromCKey_spec (toCKey name)
    have hbytes := congrArg (·.interfaceDescriptor.bytes) hclean
    rw [toCKey_bytes, toCKey_bytes, List.take_of_length_le (l := utf8 (fromCKey _)) (by omega)] at hbytes
    rcases List.append_eq_append_iff.mp hbytes with ⟨zeros, hname, hzeros⟩ | ⟨rest, hstring, -⟩
    · have hrep := (List.append_eq_replicate_iff.mp hzeros.symm).2.1
      exact ⟨utf8 (fromCKey (toCKey name)), zeros.length, by rw [hname, ← hrep], h0, hlen⟩
    · refine ⟨(utf8 name).take 128, 0, by simp, ?_, ?_⟩
      · exact fun hmem => h0 (by rw [hstring]; exact List.mem_append_left _ hmem)
      · rw [hstring, List.length_append] at hlen
        omega
  · rintro ⟨string, zeros, htake, h0, hlen⟩
    have hle : ((utf8 name).take 128).length ≤ 128 := by simp
    have hbytes : (toCKey name).interfaceDescriptor.bytes =
        string ++ List.replicate (127 - string.length + 1) 0 := by
      rw [htake, List.length_append, List.length_replicate] at hle
      rw [toCKey_bytes, htake, List.append_assoc, List.length_append, List.length_replicate, List.replicate_append_replicate]
      congr 2
      omega
    have hstring : ∃ t, utf8 t = string := by
      cases zeros with
      | zero =>
        rw [List.replicate_zero, List.append_nil] at htake
        refine ⟨name, ?_⟩
        rw [← htake, List.take_of_length_le]
        by_contra hlong
        rw [← htake, List.length_take] at hlen
        omega
      | succ zeros =>
        refine exists_utf8_of_append_zero (s := name) (r := List.replicate zeros 0 ++ (utf8 name).drop 128) ?_ h0
        rw [← List.cons_append, ← List.replicate_succ, ← List.append_assoc, ← htake, List.take_append_drop]
    obtain ⟨t, ht⟩ := hstring
    apply BinderInterfaceBpfMapKey.ext
    rw [fromCKey_toCKey_of_string hbytes h0 ht, hbytes, toCKey_bytes, ht, List.take_of_length_le (by omega)]
    congr 2
    omega

theorem clean_toCKey_fromCKey (key : BinderInterfaceBpfMapKey) : (toCKey (fromCKey key)).Clean := by
  obtain ⟨h0, hlen⟩ := fromCKey_spec key
  exact clean_toCKey_iff.mpr (cleanName_of_short h0 hlen)

end Codec

/-! ### The drain -/

section Drain
variable {dev : Device} {w w' : World} {k : BinderInterfaceBpfMapKey}

theorem getFirstKey_spec (dev : Device) (w : World) :
    ∃ w', w'.interfaces = w.interfaces ∧ w'.accessor = w.accessor ∧
      ((w.interfaces.keys = [] ∧ (getFirstKey dev).run w = .ok none w') ∨
        ∃ k ∈ w.interfaces.keys, (getFirstKey dev).run w = .ok (some (fromCKey k)) w') := by
  refine ⟨{ w with requests := w.requests ++ [.getFirstInterface] }, rfl, rfl, ?_⟩
  have hrun : (getFirstKey dev).run w = .ok
      (w.interfaces.keys[dev.firstInterface w.requests % w.interfaces.keys.length]?.map fromCKey)
      { w with requests := w.requests ++ [.getFirstInterface] } := rfl
  by_cases hkeys : w.interfaces.keys = []
  · exact .inl ⟨hkeys, by rw [hrun]; simp [hkeys]⟩
  · have hlt : dev.firstInterface w.requests % w.interfaces.keys.length < w.interfaces.keys.length :=
      Nat.mod_lt _ (List.length_pos_iff.mpr hkeys)
    refine .inr ⟨_, List.getElem_mem hlt, ?_⟩
    rw [hrun, List.getElem?_eq_getElem hlt, Option.map_some]

theorem delete_spec (key : String) (w : World) :
    (toCKey key ∉ w.interfaces.keys ∧ ∃ w', (delete key).run w = .ok false w' ∧ w'.interfaces = w.interfaces) ∨
      ∃ m w', w.interfaces.delete (toCKey key) = .ok m ∧ (delete key).run w = .ok true w' ∧ w'.interfaces = m := by
  by_cases hk : toCKey key ∈ w.interfaces.keys
  · obtain ⟨m, hm, -⟩ := BoundedMap.delete_of_mem hk
    exact .inr ⟨m, _, hm, delete_of_ok hm, rfl⟩
  · exact .inl ⟨hk, _, delete_of_error (BoundedMap.delete_of_not_mem hk), rfl⟩

/-- One turn of the loop: it ends on an empty map, it fails on a key that is not clean, or it deletes a
    clean key. -/
theorem drainLoop_succ (dev : Device) (fuel : Nat) (w : World) :
    (w.interfaces = .empty ∧ ∃ w', (drainLoop dev (fuel + 1)).run w = .ok true w' ∧ w'.interfaces = .empty) ∨
      (∃ k ∈ w.interfaces.keys, ¬k.Clean ∧
        ∃ e w', (drainLoop dev (fuel + 1)).run w = .error e w' ∧ w'.interfaces = w.interfaces) ∨
      ∃ k : BinderInterfaceBpfMapKey, k.Clean ∧ ∃ m w', w.interfaces.delete k = .ok m ∧ w'.interfaces = m ∧
        (drainLoop dev (fuel + 1)).run w = (drainLoop dev fuel).run w' := by
  obtain ⟨v, hv, -, ⟨hkeys, hfirst⟩ | ⟨k, hk, hfirst⟩⟩ := getFirstKey_spec dev w
  · refine .inl ⟨BoundedMap.eq_empty_iff.mpr hkeys, v, ?_, ?_⟩
    · rw [drainLoop, EStateM.run_bind, hfirst]
      rfl
    · rw [hv, BoundedMap.eq_empty_iff.mpr hkeys]
  · have hturn : (drainLoop dev (fuel + 1)).run w = (do
        let deleted ← delete (fromCKey k)
        if deleted then drainLoop dev fuel
        else throw (Error.message s!"Failed to delete key {fromCKey k}")).run v := by
      rw [drainLoop, EStateM.run_bind, hfirst]
    obtain ⟨hnot, u, hdelete, hu⟩ | ⟨m, u, hm, hdelete, hu⟩ := delete_spec (fromCKey k) v
    · refine .inr (.inl ⟨k, hk, fun hclean => hnot ?_, Error.message s!"Failed to delete key {fromCKey k}", u, ?_, ?_⟩)
      · rw [hclean, hv]
        exact hk
      · rw [hturn, EStateM.run_bind, hdelete]
        rfl
      · rw [hu, hv]
    · refine .inr (.inr ⟨_, clean_toCKey_fromCKey k, m, u, by rw [← hv]; exact hm, hu, ?_⟩)
      rw [hturn, EStateM.run_bind, hdelete]
      rfl

theorem drainLoop_terminates : ∀ {fuel : Nat} {w : World}, w.interfaces.keys.length < fuel →
    ∀ w', (drainLoop dev fuel).run w ≠ .ok false w'
  | 0, _, hlt => absurd hlt (Nat.not_lt_zero _)
  | fuel + 1, w, hlt => by
    rcases drainLoop_succ dev fuel w with ⟨-, v, hrun, -⟩ | ⟨k, -, -, e, v, hrun, -⟩ | ⟨k, -, m, v, hm, hv, hrun⟩
    · simp [hrun]
    · simp [hrun]
    · rw [hrun]
      have := BoundedMap.length_delete hm
      exact drainLoop_terminates (by rw [hv]; omega)

theorem drainLoop_keeps (dev : Device) (hk : ¬k.Clean) : ∀ (fuel : Nat) {w : World}, k ∈ w.interfaces.keys →
    k ∈ (after ((drainLoop dev fuel).run w)).interfaces.keys
  | 0, _, hmem => hmem
  | fuel + 1, w, hmem => by
    rcases drainLoop_succ dev fuel w with ⟨hempty, -⟩ | ⟨k', -, -, e, v, hrun, hv⟩ | ⟨k', hclean, m, v, hm, hv, hrun⟩
    · rw [hempty] at hmem
      cases hmem
    · rw [hrun, after_error, hv]
      exact hmem
    · rw [hrun]
      refine drainLoop_keeps dev hk fuel ?_
      rw [hv]
      exact (BoundedMap.mem_keys_delete hm).mpr ⟨fun heq => hk (heq ▸ hclean), hmem⟩

theorem drainLoop_empties : ∀ {fuel : Nat} {w : World}, w.interfaces.keys.length < fuel →
    (∀ k ∈ w.interfaces.keys, k.Clean) → (after ((drainLoop dev fuel).run w)).interfaces = .empty
  | 0, _, hlt, _ => absurd hlt (Nat.not_lt_zero _)
  | fuel + 1, w, hlt, hclean => by
    rcases drainLoop_succ dev fuel w with ⟨-, v, hrun, hv⟩ | ⟨k, hmem, hk, -⟩ | ⟨k, -, m, v, hm, hv, hrun⟩
    · rw [hrun, after_ok, hv]
    · exact absurd (hclean k hmem) hk
    · rw [hrun]
      have := BoundedMap.length_delete hm
      refine drainLoop_empties (by rw [hv]; omega) fun k hmem => hclean k ?_
      rw [hv] at hmem
      exact ((BoundedMap.mem_keys_delete hm).mp hmem).2

theorem drain_terminates (w w' : World) : (drain dev).run w ≠ .ok false w' :=
  drainLoop_terminates (Nat.lt_succ_self _) w'

/-- The drop leaves the map empty exactly when it found only clean keys there. -/
theorem dropAccessor_eq_empty_iff (h : w.accessor = true) :
    (dropAccessor dev w).interfaces = .empty ↔ ∀ k ∈ w.interfaces.keys, k.Clean := by
  have hdrop : (dropAccessor dev w).interfaces =
      (after ((drainLoop dev (w.interfaces.keys.length + 1)).run w)).interfaces := by
    rw [dropAccessor, if_pos h]
    rfl
  rw [hdrop]
  constructor
  · intro hempty k hmem
    by_contra hk
    have := drainLoop_keeps dev hk (w.interfaces.keys.length + 1) hmem
    rw [hempty] at this
    cases this
  · exact drainLoop_empties (Nat.lt_succ_self _)

end Drain

end UprobeStats
