import UprobeStats.Theorems.BitmapTotal

/-! The snapshot at the peak. Over the whole sequence of records, with those that fail among them, the fields of
    the handler are what one finds looking back over the records that were taken, and its snapshot holds the
    bitmaps that it had when the total first reached its maximum. -/

namespace UprobeStats
open Rust Effect Steps BitmapHistory

/-! ### Records one after another -/

/-- The records that a handler took, newest first, and the handler. -/
abbrev Taken := List BitmapAllocation × Session BitmapAllocationHandlerV1 BitmapAllocation

/-- A record that fails is not among those that were taken, and the next one is handed to the handler as the
    failure left it. -/
def takeRecord (env : Env) (task : ResolvedTask) (x : Taken) (data : BitmapAllocation) : Taken :=
  match (handItem bitmapAllocationHandlerV1 env task data).run x.2 with
  | .ok _ s => (data :: x.1, s)
  | .error _ s => (x.1, s)

def takeRecords (env : Env) (task : ResolvedTask) (records : List BitmapAllocation) : Taken :=
  records.foldl (takeRecord env task) ([], { handler := bitmapAllocationHandlerV1.default })

/-- A total that the handler's field can hold. -/
def InRange (n : Int) : Prop := -2 ^ 63 ≤ n ∧ n < 2 ^ 63

/-- The total stays in range at each record. -/
def Bounded (env : Env) (task : ResolvedTask) : List BitmapAllocation → Prop :=
  AtEach fun earlier data => InRange (total (takeRecords env task earlier).1 + data.delta)

section Taken
variable {env : Env} {task : ResolvedTask} {records pre : List BitmapAllocation} {data : BitmapAllocation}
  {s t : Session BitmapAllocationHandlerV1 BitmapAllocation} {history : List BitmapAllocation} {u : PUnit} {e : Error}

theorem takeRecords_concat : takeRecords env task (records ++ [data]) =
    takeRecord env task (takeRecords env task records) data := by
  rw [takeRecords, takeRecords, List.foldl_append, List.foldl_cons, List.foldl_nil]

theorem takeRecord_of_ok (h : (handItem bitmapAllocationHandlerV1 env task data).run s = .ok u t) :
    takeRecord env task (history, s) data = (data :: history, t) := by
  rw [takeRecord, h]

theorem takeRecord_of_error (h : (handItem bitmapAllocationHandlerV1 env task data).run s = .error e t) :
    takeRecord env task (history, s) data = (history, t) := by
  rw [takeRecord, h]

theorem handItem_error (h : (handItem bitmapAllocationHandlerV1 env task data).run s = .error e t)
    (hfits : InRange (s.handler.currentTotalBitmapSize.toInt + data.delta)) : t.handler = s.handler :=
  onItem_error (s := { s with handed := s.handed ++ [data] }) h hfits

/-- The handler follows the records that it took, whichever fail. -/
theorem follows_takeRecords (h : Bounded env task records) :
    Follows task.uid (takeRecords env task records).1 (takeRecords env task records).2.handler := by
  induction records using List.reverseRecOn with
  | nil => exact .default _
  | append_singleton records data ih =>
    have hf := ih (h.of_prefix (List.prefix_append _ _))
    have hfits : InRange (total (takeRecords env task records).1 + data.delta) := h records data [] rfl
    rw [← hf.total] at hfits
    rw [takeRecords_concat]
    cases hrun : (handItem bitmapAllocationHandlerV1 env task data).run (takeRecords env task records).2 with
    | ok u t =>
      rw [takeRecord_of_ok hrun]
      exact hf.handed hrun
    | error e t =>
      rw [takeRecord_of_error hrun]
      have hsame : t.handler = (takeRecords env task records).2.handler := handItem_error hrun hfits
      rw [hsame]
      exact hf

theorem history_concat (env : Env) (task : ResolvedTask) (records : List BitmapAllocation) (data : BitmapAllocation) :
    (takeRecords env task (records ++ [data])).1 = (takeRecords env task records).1 ∨
      (takeRecords env task (records ++ [data])).1 = data :: (takeRecords env task records).1 := by
  rw [takeRecords_concat, takeRecord]
  split
  · exact .inr rfl
  · exact .inl rfl

theorem history_of_earlier (h : pre <+: records) :
    (takeRecords env task pre).1 <:+ (takeRecords env task records).1 := by
  obtain ⟨post, rfl⟩ := h
  induction post using List.reverseRecOn with
  | nil => rw [List.append_nil]
  | append_singleton post data ih =>
    rw [← List.append_assoc]
    rcases history_concat env task (pre ++ post) data with h | h <;> rw [h]
    · exact ih
    · exact ih.trans (List.suffix_cons _ _)

/-- Everything that can be looked back on was the history at some time. -/
theorem exists_prefix_of_history (h : history <:+ (takeRecords env task records).1) :
    ∃ pre, pre <+: records ∧ (takeRecords env task pre).1 = history := by
  induction records using List.reverseRecOn with
  | nil => exact ⟨[], List.prefix_refl _, (List.suffix_nil.mp h).symm⟩
  | append_singleton records data ih =>
    have hold (h : history <:+ (takeRecords env task records).1) :
        ∃ pre, pre <+: records ++ [data] ∧ (takeRecords env task pre).1 = history := by
      obtain ⟨pre, hle, hpre⟩ := ih h
      exact ⟨pre, hle.trans (List.prefix_append _ _), hpre⟩
    rcases history_concat env task records data with heq | heq
    · exact hold (heq ▸ h)
    · rw [heq] at h
      rcases List.suffix_cons_iff.mp h with rfl | h
      · exact ⟨_, List.prefix_refl _, heq⟩
      · exact hold h

theorem values_perm {m m' : AList fun _ : UInt64 => BitmapMetadata} (h : ∀ p, m.lookup p = m'.lookup p) :
    (m.entries.map (·.2)).Perm (m'.entries.map (·.2)) := by
  refine List.Perm.map _ (List.lookup_ext m.nodupKeys m'.nodupKeys fun p b => ?_)
  rw [show m.entries.dlookup p = m'.entries.dlookup p from h p]

end Taken

/-- Over any records whose totals stay in range: a record that fails leaves every field as it is; the total is
    that of the records taken, and the maximum is its maximum; and when that is positive, the snapshot holds
    the bitmaps right after the first record at which the total had it, each with the name of the last
    activity before its allocation. -/
theorem snapshot_at_peak {env : Env} {task : ResolvedTask} {records : List BitmapAllocation}
    (hbounded : Bounded env task records) :
    (∀ pre data post e t, records = pre ++ data :: post →
      (handItem bitmapAllocationHandlerV1 env task data).run (takeRecords env task pre).2 = .error e t →
        t.handler = (takeRecords env task pre).2.handler) ∧
    (takeRecords env task records).2.handler.currentTotalBitmapSize.toInt = total (takeRecords env task records).1 ∧
    (takeRecords env task records).2.handler.maxTotalBitmapSize.toInt = peak (takeRecords env task records).1 ∧
    (0 < peak (takeRecords env task records).1 → ∃ pre, pre <+: records ∧
      total (takeRecords env task pre).1 = peak (takeRecords env task records).1 ∧
      (∀ earlier, earlier <+: pre → total (takeRecords env task earlier).1 = peak (takeRecords env task records).1 →
        (takeRecords env task earlier).1 = (takeRecords env task pre).1) ∧
      (takeRecords env task records).2.handler.bitmapSnapshotAtMaxSize.Perm
        (takeRecords env task pre).2.handler.values ∧
      ∀ p, (takeRecords env task pre).2.handler.bitmaps.lookup p = held? task.uid p (takeRecords env task pre).1) := by
  have hf := follows_takeRecords hbounded
  refine ⟨fun pre data post e t hsplit hrun => ?_, hf.total, hf.peak, fun hpos => ?_⟩
  · have hfits : InRange (total (takeRecords env task pre).1 + data.delta) := hbounded pre data post hsplit
    rw [← (follows_takeRecords (hbounded.of_prefix ⟨data :: post, hsplit.symm⟩)).total] at hfits
    exact handItem_error hrun hfits
  · obtain ⟨first, hsuffix, htotal, hfirst, m, hm, hsnapshot⟩ := hf.snapshot hpos
    obtain ⟨pre, hle, rfl⟩ := exists_prefix_of_history hsuffix
    have hpre := (follows_takeRecords (hbounded.of_prefix hle)).bitmaps
    refine ⟨pre, hle, htotal, fun earlier hearlier => hfirst _ (history_of_earlier hearlier), ?_, hpre⟩
    rw [hsnapshot, BitmapAllocationHandlerV1.values]
    exact values_perm fun p => (hm p).trans (hpre p).symm

/-! ### A record that fails -/

/-- An activity starts, two bitmaps are allocated and one of them freed, and a width does not fit. -/
def mixedRecords : List BitmapAllocation := [
  { bitmapRecord 2 0 0 with activityName := (Chars.zeros 128).write [65] },
  bitmapRecord 0 100 8,
  bitmapRecord 0 50 16,
  bitmapRecord 1 100 8,
  { bitmapRecord 0 70 24 with width := 0x80000000 }]

theorem mixedRecords_bounded : Bounded quietEnv someTask mixedRecords := by
  have hnil : Bounded quietEnv someTask [] := .nil
  have hactivity := hnil.concat { bitmapRecord 2 0 0 with activityName := (Chars.zeros 128).write [65] }
    (by unfold InRange; decide +kernel)
  have hfirst := hactivity.concat (bitmapRecord 0 100 8) (by unfold InRange; decide +kernel)
  have hsecond := hfirst.concat (bitmapRecord 0 50 16) (by unfold InRange; decide +kernel)
  have hfree := hsecond.concat (bitmapRecord 1 100 8) (by unfold InRange; decide +kernel)
  exact hfree.concat { bitmapRecord 0 70 24 with width := 0x80000000 } (by unfold InRange; decide +kernel)

theorem snapshot_of_mixedRecords :
    (takeRecords quietEnv someTask mixedRecords).2.handler.maxTotalBitmapSize.toInt =
      peak (takeRecords quietEnv someTask mixedRecords).1 ∧ peak (takeRecords quietEnv someTask mixedRecords).1 = 150 :=
  ⟨(snapshot_at_peak mixedRecords_bounded).2.2.1, by decide +kernel⟩

end UprobeStats
