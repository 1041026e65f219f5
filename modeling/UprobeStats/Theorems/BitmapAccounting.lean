import UprobeStats.Theorems.BitmapHandler

/-! The accounting of bitmaps, end to end: from the bitmaps that a process creates and frees, through the
    records that the two programs submit for them, to the fields of the handler. A free record carries
    whatever size its slot held, so the total is right exactly when these sizes add up to the freed ones. -/

namespace UprobeStats
open Rust Effect

/-! ### The traced process -/

structure Bitmap where
  nativePtr : UInt64
  width : UInt32
  height : UInt32
  pixelStorageType : UInt32
  heapSize : UInt32
  deriving DecidableEq

namespace Firing

structure Creates (f : Firing BitmapAllocation) (tgid : UInt64) (b : Bitmap) : Prop where
  tgid_eq : f.pidTgid >>> 32 = tgid
  nativePtr_eq : f.ctx.regs 3 = b.nativePtr
  width_eq : (f.ctx.regs 4).toUInt32 = b.width
  height_eq : (f.ctx.regs 5).toUInt32 = b.height
  heapSize_lt : b.heapSize.toNat < 2 ^ 31
  reads : ∃ bitmapPtr : UInt64,
    f.mem.read? 8 (loadAddress 0 b.nativePtr) = some (Bytes.toLe 8 bitmapPtr.toNat) ∧
      f.mem.read? 4 (loadAddress 0x78 bitmapPtr) = some (Bytes.toLe 4 b.pixelStorageType.toNat) ∧
      f.mem.read? 4 (loadAddress 152 bitmapPtr) = some (Bytes.toLe 4 b.heapSize.toNat)

structure Frees (f : Firing BitmapAllocation) (tgid nativePtr : UInt64) : Prop where
  tgid_eq : f.pidTgid >>> 32 = tgid
  reads : f.mem.read? 8 (f.ctx.regs 1 + 16) = some (Bytes.toLe 8 nativePtr.toNat)

end Firing

inductive BitmapEvent where
  | create (b : Bitmap) (f : Firing BitmapAllocation)
  | free (nativePtr : UInt64) (f : Firing BitmapAllocation)

namespace BitmapEvent

/-- The program that an event fires; no reserve fails. -/
def fire (active : ActiveBitmaps) : BitmapEvent → Option BitmapAllocation × ActiveBitmaps
  | create _ f => bitmapCreationForSnapshot f.ctx f.mem f.pidTgid (some f.slot) active
  | free _ f => applyFreeFunction f.ctx f.mem f.pidTgid (some f.slot) active

def after (live : List Bitmap) : BitmapEvent → List Bitmap
  | create b _ => b :: live
  | free nativePtr _ => live.filter (·.nativePtr ≠ nativePtr)

def freed (live : List Bitmap) : BitmapEvent → List Bitmap
  | create _ _ => []
  | free nativePtr _ => live.filter (·.nativePtr = nativePtr)

/-- The size that the slot of a free record held before. -/
def staleSize : BitmapEvent → Nat
  | create _ _ => 0
  | free _ f => f.slot.bitmapSize.toNat

/-- A pointer is created only while it is not live and freed only while it is, and `active_bitmaps` has
    room. -/
def Allowed (tgid : UInt64) (active : ActiveBitmaps) (live : List Bitmap) : BitmapEvent → Prop
  | create b f => b.nativePtr ∉ live.map (·.nativePtr) ∧ f.Creates tgid b ∧ active.keys.length < 5000
  | free nativePtr f => nativePtr ∈ live.map (·.nativePtr) ∧ f.Frees tgid nativePtr

end BitmapEvent

/-- Events of the process `tgid`, each allowed when it happens. -/
def Happens (tgid : UInt64) : ActiveBitmaps → List Bitmap → List BitmapEvent → Prop
  | _, _, [] => True
  | active, live, e :: es => e.Allowed tgid active live ∧ Happens tgid (e.fire active).2 (e.after live) es

def records : ActiveBitmaps → List BitmapEvent → List BitmapAllocation
  | _, [] => []
  | active, e :: es => (e.fire active).1.toList ++ records (e.fire active).2 es

def liveAfter : List Bitmap → List BitmapEvent → List Bitmap
  | live, [] => live
  | live, e :: es => liveAfter (e.after live) es

def freedBy : List Bitmap → List BitmapEvent → List Bitmap
  | _, [] => []
  | live, e :: es => e.freed live ++ freedBy (e.after live) es

def heapSizes (bitmaps : List Bitmap) : Nat := (bitmaps.map (·.heapSize.toNat)).sum

def staleSizes (events : List BitmapEvent) : Nat := (events.map (·.staleSize)).sum

/-! ### One event -/

section Event
variable {tgid : UInt64} {active : ActiveBitmaps} {live : List Bitmap} {b : Bitmap} {p : UInt64} {f : Firing BitmapAllocation}
  {slot : Option BitmapAllocation}

theorem fire_create (active : ActiveBitmaps) (h : f.Creates tgid b) :
    ∃ r, (BitmapEvent.create b f).fire active =
        (some r, (active.update ⟨tgid, b.nativePtr⟩ true .noExist).toOption.getD active) ∧
      r.type = 0 ∧ r.nativePtr = b.nativePtr ∧ r.bitmapSize = b.heapSize := by
  obtain ⟨bitmapPtr, hwrapper, -, hheap⟩ := h.reads
  refine ⟨_, by rw [← h.tgid_eq, ← h.nativePtr_eq]; rfl, rfl, h.nativePtr_eq, ?_⟩
  have hptr : load64 f.mem 0 (f.ctx.regs 3) = bitmapPtr := by
    rw [h.nativePtr_eq]
    exact readUser64_eq hwrapper
  show load32 f.mem 152 (load64 f.mem 0 (f.ctx.regs 3)) = b.heapSize
  rw [hptr]
  exact readUser32_eq hheap

/-- A free is recorded when the program knows the pointer and has a slot. -/
theorem applyFreeFunction_eq (h : f.Frees tgid p) : applyFreeFunction f.ctx f.mem f.pidTgid slot active =
    if ⟨tgid, p⟩ ∈ active.keys then
      (slot.map fun output => { output with type := 1, nativePtr := p },
        (active.delete ⟨tgid, p⟩).toOption.getD active)
    else (none, active) := by
  simp only [applyFreeFunction, readUser64_eq h.reads, h.tgid_eq]
  by_cases hactive : ⟨tgid, p⟩ ∈ active.keys
  · obtain ⟨v, hv⟩ := Option.isSome_iff_exists.mp (BoundedMap.lookup_isSome.mpr hactive)
    rw [if_pos hactive, hv]
    cases slot <;> rfl
  · rw [if_neg hactive, BoundedMap.lookup_eq_none.mpr hactive]
    rfl

theorem fire_free (h : f.Frees tgid p) (hactive : ⟨tgid, p⟩ ∈ active.keys) :
    ∃ r active', (BitmapEvent.free p f).fire active = (some r, active') ∧ active.delete ⟨tgid, p⟩ = .ok active' ∧
      r.type = 1 ∧ r.nativePtr = p ∧ r.bitmapSize = f.slot.bitmapSize := by
  obtain ⟨active', hdelete, -⟩ := BoundedMap.delete_of_mem hactive
  refine ⟨{ f.slot with type := 1, nativePtr := p }, active', ?_, hdelete, rfl, rfl, rfl⟩
  rw [BitmapEvent.fire, applyFreeFunction_eq h, if_pos hactive, hdelete]
  rfl

theorem heapSizes_after_free (live : List Bitmap) : heapSizes ((BitmapEvent.free p f).after live) +
    heapSizes ((BitmapEvent.free p f).freed live) = heapSizes live := by
  have hperm := (List.filter_append_perm (fun b : Bitmap => decide (b.nativePtr = p)) live).map (·.heapSize.toNat)
  have hsum := hperm.sum_nat
  rw [List.map_append, List.sum_append] at hsum
  simp only [heapSizes, BitmapEvent.after, BitmapEvent.freed, ne_eq, decide_not]
  omega

end Event

/-! ### Runs -/

/-- The live bitmaps are known to the program, and their pointers are those of the handler's map. -/
structure Accounts (tgid : UInt64) (active : ActiveBitmaps) (live : List Bitmap) (h : BitmapAllocationHandlerV1) :
    Prop where
  active : ∀ b ∈ live, ⟨tgid, b.nativePtr⟩ ∈ active.keys
  keys : ∀ p, p ∈ h.bitmaps ↔ p ∈ live.map (·.nativePtr)

section Run
variable {env : Env} {task : ResolvedTask} {tgid : UInt64} {active : ActiveBitmaps} {live : List Bitmap}
  {s t : Session BitmapAllocationHandlerV1 BitmapAllocation} {u : PUnit}

/-- The records of one event, and what they do to the total. -/
theorem Accounts.step {e : BitmapEvent} (h : Accounts tgid active live s.handler) (ha : e.Allowed tgid active live)
    (hok : ((e.fire active).1.toList.forM (handItem bitmapAllocationHandlerV1 env task)).run s = .ok u t) :
    Accounts tgid (e.fire active).2 (e.after live) t.handler ∧
      t.handler.currentTotalBitmapSize.toInt + e.staleSize + heapSizes live =
        s.handler.currentTotalBitmapSize.toInt + heapSizes (e.after live) + heapSizes (e.freed live) := by
  cases e with
  | create b f =>
    obtain ⟨hfresh, hcreates, hroom⟩ := ha
    obtain ⟨r, hfire, htype, hptr, hsize⟩ := fire_create active hcreates
    rw [hfire] at hok ⊢
    obtain ⟨v, hitem, hnil⟩ := forM_cons_eq_ok.mp hok
    obtain ⟨-, rfl⟩ := pure_eq_ok.mp hnil
    have hitem := handItem_ok hitem
    rw [BitmapAllocationHandlerV1.onItem, if_pos htype] at hitem
    obtain ⟨total, htotal, hhandler⟩ := onAllocation_ok hitem
    refine ⟨⟨fun c hc => ?_, fun p => ?_⟩, ?_⟩
    · rw [BoundedMap.mem_keys_getD_update hroom]
      rcases List.mem_cons.mp hc with rfl | hc
      · exact .inl rfl
      · exact .inr (h.active c hc)
    · rw [hhandler, BitmapAllocationHandlerV1.takeSnapshot_bitmaps, AList.mem_insert, h.keys p, hptr]
      simp [BitmapEvent.after]
    · rw [hhandler, BitmapAllocationHandlerV1.takeSnapshot_currentTotalBitmapSize, htotal, hsize]
      simp only [BitmapEvent.staleSize, BitmapEvent.after, BitmapEvent.freed, heapSizes, List.map_cons, List.sum_cons,
        List.map_nil, List.sum_nil]
      push_cast
      ring
  | free p f =>
    obtain ⟨hlive, hfrees⟩ := ha
    obtain ⟨b, hb, hbp⟩ := List.mem_map.mp hlive
    obtain ⟨r, active', hfire, hdelete, htype, hptr, hsize⟩ := fire_free hfrees (hbp ▸ h.active b hb)
    have hsplit := heapSizes_after_free live (p := p) (f := f)
    rw [hfire] at hok ⊢
    obtain ⟨v, hitem, hnil⟩ := forM_cons_eq_ok.mp hok
    obtain ⟨-, rfl⟩ := pure_eq_ok.mp hnil
    have hitem := handItem_ok hitem
    rw [BitmapAllocationHandlerV1.onItem, if_neg (by simp [htype]), if_pos htype] at hitem
    obtain ⟨total, htotal, hhandler⟩ := onDeallocation_ok hitem
    refine ⟨⟨fun c hc => ?_, fun p' => ?_⟩, ?_⟩
    · obtain ⟨hc, hne⟩ := List.mem_filter.mp hc
      rw [BoundedMap.mem_keys_delete hdelete]
      refine ⟨fun heq => ?_, h.active c hc⟩
      exact of_decide_eq_true hne (BitmapKey.mk.inj heq).2
    · rw [hhandler, AList.mem_erase, h.keys p', hptr]
      simp only [BitmapEvent.after, List.mem_map, List.mem_filter, decide_eq_true_eq]
      constructor
      · rintro ⟨hne, c, hc, rfl⟩
        exact ⟨c, ⟨hc, hne⟩, rfl⟩
      · rintro ⟨c, ⟨hc, hne⟩, rfl⟩
        exact ⟨hne, c, hc, rfl⟩
    · rw [hhandler, htotal, hsize, ← hsplit]
      simp only [BitmapEvent.staleSize]
      push_cast
      ring

theorem Accounts.run : ∀ {events : List BitmapEvent} {active : ActiveBitmaps} {live : List Bitmap}
    {s t : Session BitmapAllocationHandlerV1 BitmapAllocation}, Accounts tgid active live s.handler →
      Happens tgid active live events →
      ((records active events).forM (handItem bitmapAllocationHandlerV1 env task)).run s = .ok u t →
      (∀ p, p ∈ t.handler.bitmaps ↔ p ∈ (liveAfter live events).map (·.nativePtr)) ∧
        t.handler.currentTotalBitmapSize.toInt + staleSizes events + heapSizes live =
          s.handler.currentTotalBitmapSize.toInt + heapSizes (liveAfter live events) +
            heapSizes (freedBy live events)
  | [], active, live, s, t, h, _, hok => by
    obtain ⟨-, rfl⟩ := pure_eq_ok.mp hok
    exact ⟨h.keys, by simp [staleSizes, freedBy, heapSizes, liveAfter]⟩
  | e :: es, active, live, s, t, h, hhappens, hok => by
    obtain ⟨v, hfirst, hrest⟩ := forM_append_eq_ok.mp hok
    obtain ⟨hstep, htotal⟩ := h.step hhappens.1 hfirst
    obtain ⟨hkeys, htotal'⟩ := hstep.run hhappens.2 hrest
    refine ⟨hkeys, ?_⟩
    have hstale : staleSizes (e :: es) = e.staleSize + staleSizes es := by simp [staleSizes]
    have hfreed : heapSizes (freedBy live (e :: es)) =
        heapSizes (e.freed live) + heapSizes (freedBy (e.after live) es) := by simp [heapSizes, freedBy]
    rw [hstale, hfreed]
    simp only [liveAfter]
    push_cast
    omega

end Run

/-- After all records of a run the handler's map holds the live pointers, and its total is the heap size
    of the live bitmaps exactly when the sizes left in the slots of the free records add up to the heap
    size of the freed bitmaps. -/
theorem total_eq_live_iff {env : Env} {task : ResolvedTask} {tgid : UInt64} {active : ActiveBitmaps}
    {events : List BitmapEvent} {t : Session BitmapAllocationHandlerV1 BitmapAllocation} {u : PUnit}
    (h : Happens tgid active [] events)
    (hok : ((records active events).forM (handItem bitmapAllocationHandlerV1 env task)).run
      { handler := bitmapAllocationHandlerV1.default } = .ok u t) :
    (t.handler.currentTotalBitmapSize.toInt = heapSizes (liveAfter [] events) ∧
        ∀ p, p ∈ t.handler.bitmaps ↔ p ∈ (liveAfter [] events).map (·.nativePtr)) ↔
      staleSizes events = heapSizes (freedBy [] events) := by
  have hstart : Accounts tgid active [] bitmapAllocationHandlerV1.default := ⟨by simp, fun p => by
    simp [bitmapAllocationHandlerV1, AList.notMem_empty]⟩
  obtain ⟨hkeys, htotal⟩ := hstart.run h hok
  have hzero : (bitmapAllocationHandlerV1.default).currentTotalBitmapSize.toInt = 0 := by decide
  rw [hzero] at htotal
  simp only [heapSizes, List.map_nil, List.sum_nil, Nat.cast_zero] at htotal ⊢
  exact ⟨fun ⟨heq, _⟩ => by omega, fun heq => ⟨by omega, hkeys⟩⟩

/-! ### A bitmap that is created and freed -/

def bitmapMemory : Memory :=
  .ofBytes 0x1000
    (Bytes.toLe 8 0x1008 ++ List.replicate 0x78 0 ++ Bytes.toLe 4 1 ++ List.replicate 28 0 ++ Bytes.toLe 4 100)

def createCtx : PtRegs := ⟨fun i => if i = 3 then 0x1000 else if i = 4 then 5 else if i = 5 then 6 else 0, 0⟩

def freeMemory : Memory := .ofBytes 0x2010 (Bytes.toLe 8 0x1000)

def freeCtx : PtRegs := ⟨fun i => if i = 1 then 0x2000 else 0, 0⟩

/-- The process 7 creates that bitmap and frees it; the slots hold `staleSize` as the size of a bitmap. -/
def createAndFree (staleSize : UInt32) : List BitmapEvent :=
  let slot : BitmapAllocation := ⟨0, 0, 0, 0, staleSize, 0, .zeros 128⟩
  [.create ⟨0x1000, 5, 6, 1, 100⟩ ⟨createCtx, bitmapMemory, 0x700000000, slot⟩,
    .free 0x1000 ⟨freeCtx, freeMemory, 0x700000000, slot⟩]

theorem createAndFree_happens (staleSize : UInt32) : Happens 7 .empty [] (createAndFree staleSize) := by
  have hreads : bitmapMemory.read? 8 (loadAddress 0 0x1000) = some (Bytes.toLe 8 (0x1008 : UInt64).toNat) ∧
      bitmapMemory.read? 4 (loadAddress 0x78 0x1008) = some (Bytes.toLe 4 (1 : UInt32).toNat) ∧
      bitmapMemory.read? 4 (loadAddress 152 0x1008) = some (Bytes.toLe 4 (100 : UInt32).toNat) := by decide
  have hfree : freeMemory.read? 8 (freeCtx.regs 1 + 16) = some (Bytes.toLe 8 (0x1000 : UInt64).toNat) := by decide
  have htgid : (0x700000000 : UInt64) >>> 32 = 7 := by decide
  exact ⟨⟨by simp, ⟨htgid, rfl, rfl, rfl, Nat.lt_of_sub_eq_succ rfl, _, hreads⟩, Nat.zero_lt_succ _⟩,
    ⟨List.mem_singleton.mpr rfl, ⟨htgid, hfree⟩⟩, trivial⟩

def handleCreateAndFree (staleSize : UInt32) :
    EStateM.Result Error (Session BitmapAllocationHandlerV1 BitmapAllocation) PUnit :=
  ((records .empty (createAndFree staleSize)).forM (handItem bitmapAllocationHandlerV1 quietEnv someTask)).run
    { handler := bitmapAllocationHandlerV1.default }

/-- With cleared slots the total keeps the 100 bytes of the freed bitmap. -/
theorem total_ne_live_of_cleared_slot : ∃ t, handleCreateAndFree 0 = .ok ⟨⟩ t ∧ Happens 7 .empty [] (createAndFree 0) ∧
    t.handler.currentTotalBitmapSize.toInt ≠ heapSizes (liveAfter [] (createAndFree 0)) :=
  ⟨_, eq_ok_of_isOk (by decide +kernel), createAndFree_happens 0, by decide +kernel⟩

theorem total_eq_live_of_equal_size : ∃ t, handleCreateAndFree 100 = .ok ⟨⟩ t ∧
    t.handler.currentTotalBitmapSize.toInt = heapSizes (liveAfter [] (createAndFree 100)) := by
  have hok : handleCreateAndFree 100 = .ok ⟨⟩ (after (handleCreateAndFree 100)) := eq_ok_of_isOk (by decide +kernel)
  exact ⟨_, hok, ((total_eq_live_iff (createAndFree_happens 100) hok).mpr (by decide +kernel)).1⟩

end UprobeStats
