import UprobeStats.Lib.Steps
import UprobeStats.Theorems.BitmapHandler
import Mathlib.Algebra.BigOperators.Group.List.Basic

/-! The total of the handler against its map. An allocation at a pointer that is still there replaces a bitmap
    whose size stays in the total, and a free of a pointer that is not there takes a size out of it that was
    never added. -/

namespace UprobeStats
open Rust Effect Steps BitmapHistory

/-- The free of a pointer that is there carries the size of its last allocation. -/
def FreesLastSize (earlier : List BitmapAllocation) (data : BitmapAllocation) : Prop :=
  data.type = 1 → present data.nativePtr earlier.reverse = true →
    data.bitmapSize.toNat = lastSize data.nativePtr earlier.reverse

/-- A pointer that is there and is allocated again had no size, and neither has the free of a pointer that is
    not there. -/
def LeavesNothing (earlier : List BitmapAllocation) (data : BitmapAllocation) : Prop :=
  (data.type = 0 → present data.nativePtr earlier.reverse = true → lastSize data.nativePtr earlier.reverse = 0) ∧
    (data.type = 1 → present data.nativePtr earlier.reverse = false → data.bitmapSize.toNat = 0)

/-- The sizes that the last allocations of the pointers in the map carried. -/
def presentSizes (history : List BitmapAllocation) (h : BitmapAllocationHandlerV1) : Nat :=
  (h.bitmaps.keys.map (lastSize · history)).sum

/-- What a record adds to the total, and not to the sizes of the pointers in the map. -/
def loss (data : BitmapAllocation) (history : List BitmapAllocation) : Int :=
  if data.type = 0 ∧ present data.nativePtr history = true then lastSize data.nativePtr history
  else if data.type = 1 ∧ present data.nativePtr history = false then -data.bitmapSize.toNat
  else 0

theorem loss_eq_zero_iff {earlier : List BitmapAllocation} {data : BitmapAllocation} :
    loss data earlier.reverse = 0 ↔ LeavesNothing earlier data := by
  unfold loss LeavesNothing
  by_cases h0 : data.type = 0
  · have h1 : data.type ≠ 1 := by simp [h0]
    cases hpresent : present data.nativePtr earlier.reverse <;> simp [h0]
  · by_cases h1 : data.type = 1
    · cases hpresent : present data.nativePtr earlier.reverse <;> simp [h1]
    · simp [h0, h1]

section Sizes
variable {f g : UInt64 → Nat} {m : AList fun _ : UInt64 => BitmapMetadata} {p : UInt64}

theorem sum_keys_erase (h : p ∈ m) : f p + ((m.erase p).keys.map f).sum = (m.keys.map f).sum := by
  rw [AList.keys_erase]
  exact List.sum_map_erase f h

theorem sum_keys_erase_of_not_mem (h : p ∉ m) : ((m.erase p).keys.map f).sum = (m.keys.map f).sum := by
  rw [AList.keys_erase, List.erase_of_not_mem h]

theorem sum_keys_congr (h : ∀ q ∈ m, f q = g q) : (m.keys.map f).sum = (m.keys.map g).sum := by
  rw [List.map_congr_left h]

theorem sum_keys_insert (b : BitmapMetadata) :
    ((m.insert p b).keys.map f).sum = f p + ((m.erase p).keys.map f).sum := by
  rw [AList.keys_insert, AList.keys_erase, List.map_cons, List.sum_cons]

end Sizes

section Total
variable {env : Env} {task : ResolvedTask} {data : BitmapAllocation} {history : List BitmapAllocation}
  {s t : Session BitmapAllocationHandlerV1 BitmapAllocation} {u : PUnit}

theorem lastSize_cons_of_ne {p : UInt64} (h : data.nativePtr = p → data.type ≠ 0) :
    lastSize p (data :: history) = lastSize p history := by
  rw [lastSize, if_neg fun hp => h hp.1 hp.2]

/-- One record moves the total away from the sizes in the map by what is lost at it. -/
theorem gap_step (hf : Follows task.uid history s.handler)
    (hmatch : data.type = 1 → present data.nativePtr history = true →
      data.bitmapSize.toNat = lastSize data.nativePtr history)
    (hok : (handItem bitmapAllocationHandlerV1 env task data).run s = .ok u t) :
    t.handler.currentTotalBitmapSize.toInt - presentSizes (data :: history) t.handler =
      s.handler.currentTotalBitmapSize.toInt - presentSizes history s.handler + loss data history := by
  have hmem : data.nativePtr ∈ s.handler.bitmaps ↔ present data.nativePtr history = true := hf.mem_bitmaps
  have herase : ∀ q ∈ s.handler.bitmaps.erase data.nativePtr, lastSize q (data :: history) = lastSize q history :=
    fun q hq => lastSize_cons_of_ne fun heq => absurd heq.symm (AList.mem_erase.mp hq).1
  rcases onItem_ok (handItem_ok hok) with ⟨htype, hok⟩ | ⟨htype, hok⟩ | ⟨htype, hok⟩ | ⟨h0, h1, -, rfl⟩
  · obtain ⟨total, htotal, hhandler⟩ := onAllocation_ok hok
    have hlast : lastSize data.nativePtr (data :: history) = data.bitmapSize.toNat := if_pos ⟨rfl, htype⟩
    rw [hhandler, presentSizes, BitmapAllocationHandlerV1.takeSnapshot_bitmaps,
      BitmapAllocationHandlerV1.takeSnapshot_currentTotalBitmapSize, sum_keys_insert, sum_keys_congr herase, hlast, htotal]
    by_cases hp : data.nativePtr ∈ s.handler.bitmaps
    · rw [loss, if_pos ⟨htype, hmem.mp hp⟩, presentSizes, ← sum_keys_erase (f := (lastSize · history)) hp]
      push_cast
      ring
    · rw [loss, if_neg fun h => hp (hmem.mpr h.2), if_neg fun h => absurd (htype.symm.trans h.1) (by decide), presentSizes,
        sum_keys_erase_of_not_mem hp]
      push_cast
      ring
  · obtain ⟨total, htotal, hhandler⟩ := onDeallocation_ok hok
    have hne : data.type ≠ 0 := by simp [htype]
    rw [hhandler, presentSizes, sum_keys_congr herase, htotal, loss, if_neg fun h => hne h.1]
    by_cases hp : data.nativePtr ∈ s.handler.bitmaps
    · rw [if_neg fun h => absurd (hmem.mp hp) (by simp [h.2]), presentSizes,
        ← sum_keys_erase (f := (lastSize · history)) hp, hmatch htype (hmem.mp hp)]
      push_cast
      ring
    · have hnot : present data.nativePtr history = false := Bool.eq_false_iff.mpr fun h => hp (hmem.mpr h)
      rw [if_pos ⟨htype, hnot⟩, presentSizes, sum_keys_erase_of_not_mem hp]
      ring
  · have h0 : data.type ≠ 0 := by simp [htype]
    have h1 : data.type ≠ 1 := by simp [htype]
    rw [onActivityStart_ok hok, loss, if_neg fun h => h0 h.1, if_neg fun h => h1 h.1, add_zero, presentSizes, presentSizes,
      sum_keys_congr fun q _ => lastSize_cons_of_ne fun _ => h0]
  · rw [loss, if_neg fun h => h0 h.1, if_neg fun h => h1 h.1, add_zero, presentSizes, presentSizes,
      sum_keys_congr fun q _ => lastSize_cons_of_ne fun _ => h0]

/-- Over records that are all taken the total moves by what is lost at each. -/
theorem gap_run {pre : List BitmapAllocation} (hmatch : AtEach FreesLastSize (pre ++ [data]))
    (hok : ((pre ++ [data]).forM (handItem bitmapAllocationHandlerV1 env task)).run
      { handler := bitmapAllocationHandlerV1.default } = .ok u t) :
    ∃ v, (pre.forM (handItem bitmapAllocationHandlerV1 env task)).run
        { handler := bitmapAllocationHandlerV1.default } = .ok ⟨⟩ v ∧
      t.handler.currentTotalBitmapSize.toInt - presentSizes (pre ++ [data]).reverse t.handler =
        v.handler.currentTotalBitmapSize.toInt - presentSizes pre.reverse v.handler + loss data pre.reverse := by
  obtain ⟨v, hpre, hlast⟩ := forM_append_eq_ok.mp hok
  obtain ⟨_, hitem, hnil⟩ := forM_cons_eq_ok.mp hlast
  obtain ⟨-, rfl⟩ := pure_eq_ok.mp hnil
  have hf := (Follows.default task.uid).run hpre
  rw [List.append_nil] at hf
  rw [List.reverse_append]
  exact ⟨v, hpre, gap_step hf (hmatch pre data [] rfl) hitem⟩

end Total

/-- When all records are taken, the total is after each of them the sum of the sizes that the pointers in the
    map were last allocated with, and not negative, exactly when nothing is left behind at any. -/
theorem total_eq_presentSizes_iff {env : Env} {task : ResolvedTask} {records : List BitmapAllocation}
    {t : Session BitmapAllocationHandlerV1 BitmapAllocation} {u : PUnit}
    (hok : (records.forM (handItem bitmapAllocationHandlerV1 env task)).run
      { handler := bitmapAllocationHandlerV1.default } = .ok u t)
    (hmatch : AtEach FreesLastSize records) :
    (∀ pre v, pre <+: records → (pre.forM (handItem bitmapAllocationHandlerV1 env task)).run
        { handler := bitmapAllocationHandlerV1.default } = .ok ⟨⟩ v →
      0 ≤ v.handler.currentTotalBitmapSize.toInt ∧
        v.handler.currentTotalBitmapSize.toInt = presentSizes pre.reverse v.handler) ↔
      AtEach LeavesNothing records := by
  constructor
  · intro hall pre data post hsplit
    have hle : pre ++ [data] <+: records := ⟨post, by rw [hsplit]; simp⟩
    obtain ⟨rest, hrest⟩ := hle
    rw [← hrest] at hok
    obtain ⟨v', hok', -⟩ := forM_append_eq_ok.mp hok
    obtain ⟨v, hpre, hgap⟩ := gap_run (hmatch.of_prefix ⟨rest, hrest⟩) hok'
    have hv := (hall pre v ⟨data :: post, hsplit.symm⟩ hpre).2
    have hv' := (hall (pre ++ [data]) v' ⟨rest, hrest⟩ hok').2
    exact loss_eq_zero_iff.mp (by omega)
  · intro hnothing pre
    induction pre using List.reverseRecOn with
    | nil =>
      intro v _ hrun
      obtain ⟨-, rfl⟩ := pure_eq_ok.mp hrun
      exact ⟨le_refl _, rfl⟩
    | append_singleton pre data ih =>
      intro v hle hrun
      obtain ⟨v', hpre, hgap⟩ := gap_run (hmatch.of_prefix hle) hrun
      have hv' := (ih v' ((List.prefix_append _ _).trans hle) hpre).2
      obtain ⟨post, hpost⟩ := hle
      have hloss := loss_eq_zero_iff.mpr (hnothing pre data post (by rw [← hpost]; simp))
      omega

/-! ### Two allocations at one pointer -/

def bitmapRecord (type bitmapSize : UInt32) (nativePtr : UInt64) : BitmapAllocation :=
  ⟨type, 1, 1, 0, bitmapSize, nativePtr, .zeros 128⟩

def handleRecords (records : List BitmapAllocation) :
    EStateM.Result Error (Session BitmapAllocationHandlerV1 BitmapAllocation) PUnit :=
  (records.forM (handItem bitmapAllocationHandlerV1 quietEnv someTask)).run
    { handler := bitmapAllocationHandlerV1.default }

/-- The second allocation replaces the first in the map and is added to it in the total; and the free of an
    unknown pointer makes the total negative. -/
theorem total_ne_presentSizes :
    (∃ t, handleRecords [bitmapRecord 0 100 8, bitmapRecord 0 50 8] = .ok ⟨⟩ t ∧
      AtEach FreesLastSize [bitmapRecord 0 100 8, bitmapRecord 0 50 8] ∧
      t.handler.currentTotalBitmapSize.toInt = 150 ∧
      presentSizes [bitmapRecord 0 50 8, bitmapRecord 0 100 8] t.handler = 50) ∧
    ∃ t, handleRecords [bitmapRecord 1 100 8] = .ok ⟨⟩ t ∧ AtEach FreesLastSize [bitmapRecord 1 100 8] ∧
      t.handler.currentTotalBitmapSize.toInt = -100 := by
  have hok : handleRecords [bitmapRecord 0 100 8, bitmapRecord 0 50 8] =
      .ok ⟨⟩ (after (handleRecords [bitmapRecord 0 100 8, bitmapRecord 0 50 8])) := eq_ok_of_isOk (by decide +kernel)
  have hok' : handleRecords [bitmapRecord 1 100 8] = .ok ⟨⟩ (after (handleRecords [bitmapRecord 1 100 8])) :=
    eq_ok_of_isOk (by decide +kernel)
  refine ⟨⟨_, hok, ?_, by decide +kernel, by decide +kernel⟩, _, hok', ?_, by decide +kernel⟩
  · exact (AtEach.nil.concat (bitmapRecord 0 100 8) (by unfold FreesLastSize; decide)).concat
      (bitmapRecord 0 50 8) (by unfold FreesLastSize; decide)
  · exact AtEach.nil.concat (bitmapRecord 1 100 8) (by unfold FreesLastSize; decide)

theorem total_eq_presentSizes_of_freed : ∃ t, handleRecords [bitmapRecord 0 100 8, bitmapRecord 1 100 8] = .ok ⟨⟩ t ∧
    t.handler.currentTotalBitmapSize.toInt =
      presentSizes [bitmapRecord 1 100 8, bitmapRecord 0 100 8] t.handler := by
  have hok : handleRecords [bitmapRecord 0 100 8, bitmapRecord 1 100 8] =
      .ok ⟨⟩ (after (handleRecords [bitmapRecord 0 100 8, bitmapRecord 1 100 8])) := eq_ok_of_isOk (by decide +kernel)
  have hmatch : AtEach FreesLastSize [bitmapRecord 0 100 8, bitmapRecord 1 100 8] :=
    (AtEach.nil.concat (bitmapRecord 0 100 8) (by unfold FreesLastSize; decide)).concat
      (bitmapRecord 1 100 8) (by unfold FreesLastSize; decide)
  have hnothing : AtEach LeavesNothing [bitmapRecord 0 100 8, bitmapRecord 1 100 8] :=
    (AtEach.nil.concat (bitmapRecord 0 100 8) (by unfold LeavesNothing; decide)).concat
      (bitmapRecord 1 100 8) (by unfold LeavesNothing; decide)
  exact ⟨_, hok, ((total_eq_presentSizes_iff hok hmatch).mpr hnothing _ _ (List.prefix_refl _) hok).2⟩

end UprobeStats
