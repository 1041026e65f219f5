import UprobeStats.BitmapHistory
import UprobeStats.Theorems.PollLoop

/-! What records do to the fields of the handler: each field is what one finds looking back over the records
    that were taken. -/

namespace UprobeStats
open Rust Effect

section Handler
variable {env : Env} {task : ResolvedTask} {data : BitmapAllocation}
  {s t : Session BitmapAllocationHandlerV1 BitmapAllocation} {u : PUnit} {e : Error}

/-! ### Records that are taken -/

theorem onAllocation_ok (h : (BitmapAllocationHandlerV1.onAllocation env task data).run s = .ok u t) :
    ∃ total : Int64, total.toInt = s.handler.currentTotalBitmapSize.toInt + data.bitmapSize.toNat ∧
      t.handler = BitmapAllocationHandlerV1.takeSnapshot { s.handler with
        bitmaps := s.handler.bitmaps.insert data.nativePtr (data.metadata task.uid s.handler.activityName)
        currentTotalBitmapSize := total } := by
  unfold BitmapAllocationHandlerV1.onAllocation at h
  rw [bind_get_eq_ok] at h
  obtain ⟨width, hwidth, h⟩ := bind_lift_eq_ok.mp h
  obtain ⟨height, hheight, h⟩ := bind_lift_eq_ok.mp h
  obtain ⟨pixelStorageType, hpixel, h⟩ := bind_lift_eq_ok.mp h
  obtain ⟨_, v, hwrite, h⟩ := bind_eq_ok.mp h
  have hv := handler_of_call hwrite
  unfold modifyHandler at h
  rw [bind_modify_eq_ok] at h
  obtain ⟨size, hsize, h⟩ := bind_lift_eq_ok.mp h
  rw [bind_get_eq_ok] at h
  obtain ⟨total, htotal, h⟩ := bind_lift_eq_ok.mp h
  rw [bind_modify_eq_ok] at h
  obtain rfl : _ = t := (EStateM.Result.ok.inj h).2
  rw [tryI64_eq_ok] at hsize
  rw [addI64_eq_ok, hsize, hv] at htotal
  refine ⟨total, htotal, ?_⟩
  rw [BitmapAllocation.metadata, ← eq_ofInt_of_tryI32 hwidth, ← eq_ofInt_of_tryI32 hheight,
    ← eq_ofInt_of_tryI32 hpixel, ← hv]

theorem onDeallocation_ok (h : (BitmapAllocationHandlerV1.onDeallocation data).run s = .ok u t) :
    ∃ total : Int64, total.toInt = s.handler.currentTotalBitmapSize.toInt - data.bitmapSize.toNat ∧
      t.handler = { s.handler with
        bitmaps := s.handler.bitmaps.erase data.nativePtr
        currentTotalBitmapSize := total } := by
  unfold BitmapAllocationHandlerV1.onDeallocation modifyHandler at h
  rw [bind_modify_eq_ok] at h
  obtain ⟨size, hsize, h⟩ := bind_lift_eq_ok.mp h
  rw [bind_get_eq_ok] at h
  obtain ⟨total, htotal, h⟩ := bind_lift_eq_ok.mp h
  obtain rfl : _ = t := (EStateM.Result.ok.inj h).2
  rw [tryI64_eq_ok] at hsize
  rw [subI64_eq_ok, hsize] at htotal
  exact ⟨total, htotal, rfl⟩

theorem onActivityStart_ok (h : (BitmapAllocationHandlerV1.onActivityStart data).run s = .ok u t) :
    t.handler = { s.handler with activityName := ((bytesAsStr data.activityName).toOption).getD "" } := by
  obtain ⟨activityName, hname, h⟩ := bind_lift_eq_ok.mp h
  obtain rfl : _ = t := (EStateM.Result.ok.inj h).2
  rw [hname]
  rfl

/-- The four kinds of records, as a handler takes them. -/
theorem onItem_ok (h : (BitmapAllocationHandlerV1.onItem env task data).run s = .ok u t) :
    (data.type = 0 ∧ (BitmapAllocationHandlerV1.onAllocation env task data).run s = .ok u t) ∨
      (data.type = 1 ∧ (BitmapAllocationHandlerV1.onDeallocation data).run s = .ok u t) ∨
      (data.type = 2 ∧ (BitmapAllocationHandlerV1.onActivityStart data).run s = .ok u t) ∨
      (data.type ≠ 0 ∧ data.type ≠ 1 ∧ data.type ≠ 2 ∧ t = s) := by
  unfold BitmapAllocationHandlerV1.onItem at h
  by_cases h0 : data.type = 0
  · rw [if_pos h0] at h
    exact .inl ⟨h0, h⟩
  rw [if_neg h0] at h
  by_cases h1 : data.type = 1
  · rw [if_pos h1] at h
    exact .inr (.inl ⟨h1, h⟩)
  rw [if_neg h1] at h
  by_cases h2 : data.type = 2
  · rw [if_pos h2] at h
    exact .inr (.inr (.inl ⟨h2, h⟩))
  rw [if_neg h2] at h
  exact .inr (.inr (.inr ⟨h0, h1, h2, (pure_eq_ok.mp h).2.symm⟩))

/-! ### Records that fail -/

theorem tryI64_size (size : UInt32) : tryI64 size.toNat = .ok (Int64.ofInt size.toNat) :=
  tryI64_of_mem (by have := size.toNat_lt; omega)

theorem toInt_size (size : UInt32) : (Int64.ofInt size.toNat).toInt = size.toNat :=
  tryI64_eq_ok.mp (tryI64_size size)

/-- An allocation fails before it changes a field, when the new total is in range. -/
theorem onAllocation_error (h : (BitmapAllocationHandlerV1.onAllocation env task data).run s = .error e t)
    (hfits : s.handler.currentTotalBitmapSize.toInt + data.bitmapSize.toNat < 2 ^ 63) : t.handler = s.handler := by
  have hmin := s.handler.currentTotalBitmapSize.le_toInt
  unfold BitmapAllocationHandlerV1.onAllocation modifyHandler at h
  rw [run_get_bind] at h
  rcases bind_lift_eq_error.mp h with ⟨-, rfl⟩ | ⟨width, -, h⟩
  · rfl
  rcases bind_lift_eq_error.mp h with ⟨-, rfl⟩ | ⟨height, -, h⟩
  · rfl
  rcases bind_lift_eq_error.mp h with ⟨-, rfl⟩ | ⟨pixelStorageType, -, h⟩
  · rfl
  rcases bind_eq_error.mp h with hwrite | ⟨_, v, hwrite, h⟩
  · exact handler_of_call_error hwrite
  -- From here on nothing fails.
  have hv := handler_of_call hwrite
  rw [run_modify_bind, run_lift_bind_of_ok (tryI64_size data.bitmapSize), run_get_bind, hv,
    run_lift_bind_of_ok (addI64_of_mem (by rw [toInt_size]; dsimp only; omega))] at h
  cases h

theorem onDeallocation_error (h : (BitmapAllocationHandlerV1.onDeallocation data).run s = .error e t)
    (hfits : -2 ^ 63 ≤ s.handler.currentTotalBitmapSize.toInt - data.bitmapSize.toNat) : t.handler = s.handler := by
  have hmax := s.handler.currentTotalBitmapSize.toInt_lt
  unfold BitmapAllocationHandlerV1.onDeallocation modifyHandler at h
  rw [run_modify_bind, run_lift_bind_of_ok (tryI64_size data.bitmapSize), run_get_bind,
    run_lift_bind_of_ok (subI64_of_mem (by rw [toInt_size]; dsimp only; omega))] at h
  cases h

theorem onActivityStart_error (h : (BitmapAllocationHandlerV1.onActivityStart data).run s = .error e t) :
    t.handler = s.handler := by
  rcases bind_lift_eq_error.mp h with ⟨-, rfl⟩ | ⟨activityName, -, h⟩
  · rfl
  · cases h

/-- A record that fails leaves every field as it is, when the total that it would make is in range. -/
theorem onItem_error (h : (BitmapAllocationHandlerV1.onItem env task data).run s = .error e t)
    (hfits : -2 ^ 63 ≤ s.handler.currentTotalBitmapSize.toInt + data.delta ∧
      s.handler.currentTotalBitmapSize.toInt + data.delta < 2 ^ 63) : t.handler = s.handler := by
  unfold BitmapAllocationHandlerV1.onItem at h
  unfold BitmapAllocation.delta at hfits
  by_cases h0 : data.type = 0
  · rw [if_pos h0] at h hfits
    exact onAllocation_error h hfits.2
  rw [if_neg h0] at h hfits
  by_cases h1 : data.type = 1
  · rw [if_pos h1] at h hfits
    exact onDeallocation_error h (by omega)
  rw [if_neg h1] at h
  by_cases h2 : data.type = 2
  · rw [if_pos h2] at h
    exact onActivityStart_error h
  · rw [if_neg h2] at h
    cases h

theorem handItem_ok (h : (handItem bitmapAllocationHandlerV1 env task data).run s = .ok u t) :
    (BitmapAllocationHandlerV1.onItem env task data).run { s with handed := s.handed ++ [data] } = .ok u t := h

end Handler

/-! ### Looking back -/

namespace BitmapHistory

section History
variable {data : BitmapAllocation} {history earlier : List BitmapAllocation} {p : UInt64} {uid : Int32}

theorem total_cons (data : BitmapAllocation) (history : List BitmapAllocation) :
    total (data :: history) = data.delta + total history := by simp [total]

theorem total_le_peak : ∀ {history : List BitmapAllocation}, earlier <:+ history → total earlier ≤ peak history
  | [], h => by
    obtain rfl := List.suffix_nil.mp h
    exact le_refl _
  | data :: history, h => by
    rcases List.suffix_cons_iff.mp h with rfl | h
    · exact le_max_left _ _
    · exact (total_le_peak h).trans (le_max_right _ _)

theorem isSome_held? : ∀ history : List BitmapAllocation, (held? uid p history).isSome = present p history
  | [] => rfl
  | data :: history => by
    rw [held?, present]
    split
    · rfl
    · split
      · rfl
      · exact isSome_held? history

end History
end BitmapHistory

open BitmapHistory

/-- The fields of a handler after these records. The snapshot holds the bitmaps of the first time at which
    the total had the peak. -/
structure Follows (uid : Int32) (history : List BitmapAllocation) (h : BitmapAllocationHandlerV1) : Prop where
  bitmaps : ∀ p, h.bitmaps.lookup p = held? uid p history
  activityName : h.activityName = activityName history
  total : h.currentTotalBitmapSize.toInt = total history
  peak : h.maxTotalBitmapSize.toInt = peak history
  snapshot : 0 < BitmapHistory.peak history → ∃ first, first <:+ history ∧
    BitmapHistory.total first = BitmapHistory.peak history ∧
    (∀ earlier, earlier <:+ first → BitmapHistory.total earlier = BitmapHistory.peak history → earlier = first) ∧
    ∃ m : AList fun _ : UInt64 => BitmapMetadata, (∀ p, m.lookup p = held? uid p first) ∧
      h.bitmapSnapshotAtMaxSize = m.entries.map (·.2)

namespace Follows
variable {env : Env} {task : ResolvedTask} {data : BitmapAllocation} {history : List BitmapAllocation}
  {s t : Session BitmapAllocationHandlerV1 BitmapAllocation} {u : PUnit} {uid : Int32}
  {h h' : BitmapAllocationHandlerV1}

theorem default (uid : Int32) : Follows uid [] {} where
  bitmaps p := AList.lookup_empty p
  activityName := rfl
  total := rfl
  peak := rfl
  snapshot h := absurd h (lt_irrefl _)

theorem mem_bitmaps (hf : Follows uid history h) {p : UInt64} : p ∈ h.bitmaps ↔ present p history = true := by
  rw [← AList.lookup_isSome, hf.bitmaps, isSome_held?]

theorem keep_snapshot (hf : Follows uid history h) (hpeak : BitmapHistory.peak (data :: history) =
    BitmapHistory.peak history) (hsnapshot : h'.bitmapSnapshotAtMaxSize = h.bitmapSnapshotAtMaxSize) :
    0 < BitmapHistory.peak (data :: history) → ∃ first, first <:+ data :: history ∧
      BitmapHistory.total first = BitmapHistory.peak (data :: history) ∧
      (∀ earlier, earlier <:+ first → BitmapHistory.total earlier = BitmapHistory.peak (data :: history) →
        earlier = first) ∧
      ∃ m : AList fun _ : UInt64 => BitmapMetadata, (∀ p, m.lookup p = held? uid p first) ∧
        h'.bitmapSnapshotAtMaxSize = m.entries.map (·.2) := by
  rw [hpeak, hsnapshot]
  intro hpos
  obtain ⟨first, hsuffix, hfirst⟩ := hf.snapshot hpos
  exact ⟨first, hsuffix.trans (List.suffix_cons _ _), hfirst⟩

theorem allocation (hf : Follows task.uid history s.handler) (htype : data.type = 0)
    (hok : (BitmapAllocationHandlerV1.onAllocation env task data).run s = .ok u t) :
    Follows task.uid (data :: history) t.handler := by
  obtain ⟨total, htotal, hhandler⟩ := onAllocation_ok hok
  have hdelta : data.delta = data.bitmapSize.toNat := if_pos htype
  have htotal' : total.toInt = BitmapHistory.total (data :: history) := by
    rw [total_cons, htotal, hf.total, hdelta, add_comm]
  have hbitmaps (p : UInt64) :
      (s.handler.bitmaps.insert data.nativePtr (data.metadata task.uid s.handler.activityName)).lookup p =
        held? task.uid p (data :: history) := by
    rw [held?]
    by_cases hp : data.nativePtr = p
    · rw [if_pos ⟨hp, htype⟩, ← hp, AList.lookup_insert, hf.activityName]
    · rw [if_neg fun h => hp h.1, if_neg fun h => hp h.1, AList.lookup_insert_ne (Ne.symm hp), hf.bitmaps]
  have hname : s.handler.activityName = BitmapHistory.activityName (data :: history) := by
    rw [BitmapHistory.activityName, htype, if_neg (by decide), hf.activityName]
  have hpeak : BitmapHistory.peak (data :: history) = max total.toInt (BitmapHistory.peak history) := by
    rw [BitmapHistory.peak, htotal']
  rw [hhandler, BitmapAllocationHandlerV1.takeSnapshot]
  by_cases hlt : s.handler.maxTotalBitmapSize < total
  · -- A new peak, which no earlier total has reached.
    rw [if_pos hlt]
    rw [Int64.lt_iff_toInt_lt, hf.peak] at hlt
    rw [max_eq_left hlt.le] at hpeak
    refine ⟨hbitmaps, hname, htotal', hpeak.symm, fun _ => ?_⟩
    refine ⟨data :: history, List.suffix_refl _, by rw [hpeak, htotal'], fun earlier hearlier heq => ?_, _, hbitmaps, rfl⟩
    rcases List.suffix_cons_iff.mp hearlier with rfl | hearlier
    · rfl
    · have := total_le_peak hearlier
      omega
  · rw [if_neg hlt]
    rw [Int64.lt_iff_toInt_lt, hf.peak, not_lt] at hlt
    rw [max_eq_right hlt] at hpeak
    exact ⟨hbitmaps, hname, htotal', by rw [hpeak, ← hf.peak], hf.keep_snapshot hpeak rfl⟩

theorem deallocation (hf : Follows task.uid history s.handler) (htype : data.type = 1)
    (hok : (BitmapAllocationHandlerV1.onDeallocation data).run s = .ok u t) :
    Follows task.uid (data :: history) t.handler := by
  obtain ⟨total, htotal, hhandler⟩ := onDeallocation_ok hok
  have hne : data.type ≠ 0 := by simp [htype]
  have hdelta : data.delta = -data.bitmapSize.toNat := by rw [BitmapAllocation.delta, if_neg hne, if_pos htype]
  have htotal' : total.toInt = BitmapHistory.total (data :: history) := by
    rw [total_cons, htotal, hf.total, hdelta]
    ring
  have hpeak : BitmapHistory.peak (data :: history) = BitmapHistory.peak history := by
    rw [BitmapHistory.peak, total_cons, hdelta]
    have := total_le_peak (List.suffix_refl history)
    exact max_eq_right (by omega)
  rw [hhandler]
  refine ⟨fun p => ?_, ?_, htotal', by rw [hpeak, ← hf.peak], hf.keep_snapshot hpeak rfl⟩
  · rw [held?, if_neg fun h => hne h.2]
    by_cases hp : data.nativePtr = p
    · rw [if_pos ⟨hp, htype⟩, ← hp, AList.lookup_erase]
    · rw [if_neg fun h => hp h.1, AList.lookup_erase_ne (Ne.symm hp), hf.bitmaps]
  · rw [BitmapHistory.activityName, htype, if_neg (by decide), hf.activityName]

/-- A record of another type leaves the bitmaps, their total and the snapshot as they are. -/
theorem other (hf : Follows uid history h) (data : BitmapAllocation) (h0 : data.type ≠ 0) (h1 : data.type ≠ 1) :
    Follows uid (data :: history) { h with activityName := BitmapHistory.activityName (data :: history) } := by
  have hdelta : data.delta = 0 := by rw [BitmapAllocation.delta, if_neg h0, if_neg h1]
  have htotal : BitmapHistory.total (data :: history) = BitmapHistory.total history := by
    rw [total_cons, hdelta, zero_add]
  have hpeak : BitmapHistory.peak (data :: history) = BitmapHistory.peak history := by
    rw [BitmapHistory.peak, htotal]
    exact max_eq_right (total_le_peak (List.suffix_refl history))
  refine ⟨fun p => ?_, rfl, htotal ▸ hf.total, hpeak ▸ hf.peak, hf.keep_snapshot hpeak rfl⟩
  rw [held?, if_neg fun h => h0 h.2, if_neg fun h => h1 h.2, ← hf.bitmaps]

theorem item (hf : Follows task.uid history s.handler)
    (hok : (BitmapAllocationHandlerV1.onItem env task data).run s = .ok u t) :
    Follows task.uid (data :: history) t.handler := by
  rcases onItem_ok hok with ⟨htype, hok⟩ | ⟨htype, hok⟩ | ⟨htype, hok⟩ | ⟨h0, h1, h2, rfl⟩
  · exact hf.allocation htype hok
  · exact hf.deallocation htype hok
  · have hname := hf.other data (by simp [htype]) (by simp [htype])
    rw [BitmapHistory.activityName, if_pos htype] at hname
    rw [onActivityStart_ok hok]
    exact hname
  · have hname := hf.other data h0 h1
    rw [BitmapHistory.activityName, if_neg h2, ← hf.activityName] at hname
    exact hname

theorem handed (hf : Follows task.uid history s.handler)
    (hok : (handItem bitmapAllocationHandlerV1 env task data).run s = .ok u t) :
    Follows task.uid (data :: history) t.handler :=
  hf.item (s := { s with handed := s.handed ++ [data] }) (handItem_ok hok)

theorem run : ∀ {records history : List BitmapAllocation} {s t : Session BitmapAllocationHandlerV1 BitmapAllocation},
    Follows task.uid history s.handler → (records.forM (handItem bitmapAllocationHandlerV1 env task)).run s = .ok u t →
      Follows task.uid (records.reverse ++ history) t.handler
  | [], _, _, _, hf, hok => by
    obtain ⟨-, rfl⟩ := pure_eq_ok.mp hok
    exact hf
  | _ :: records, history, s, t, hf, hok => by
    obtain ⟨v, hfirst, hrest⟩ := forM_cons_eq_ok.mp hok
    rw [List.reverse_cons, List.append_assoc]
    exact (hf.handed hfirst).run hrest

end Follows
end UprobeStats
