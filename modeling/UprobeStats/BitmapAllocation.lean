import UprobeStats.BpfFns
import UprobeStats.Handler
import UprobeStats.Lib.BoundedMap

/-! Bitmaps: the programs of `BitmapAllocation.c` that share the ring `output`, and the handlers of
    `bitmap_allocation.rs` that read it. -/

namespace UprobeStats
open Rust Effect

/-! ### The programs

A program gets the slot that `bpf_output_reserve` returns, with whatever bytes it holds, and gives back
the record that it submits. -/

structure BitmapKey where
  tgid : UInt64
  nativePtr : UInt64
  deriving DecidableEq

abbrev ActiveBitmaps := BoundedMap BitmapKey Bool 5000

def bitmapCreation (ctx : PtRegs) (mem : Memory) (slot : Option BitmapAllocation) : Option BitmapAllocation := do
  let output ← slot
  let bitmapWrapperPtr := ctx.regs 3
  -- The first 8 bytes of a BitmapWrapper object is the pointer to the underlying Bitmap.
  let bitmapPtr := load64 mem 0 bitmapWrapperPtr
  -- 0x78 is the offset of pixel_storage_type into a Bitmap object.
  some { output with
    width := (ctx.regs 4).toUInt32
    height := (ctx.regs 5).toUInt32
    pixelStorageType := load32 mem 0x78 bitmapPtr }

def bitmapCreationForSnapshot (ctx : PtRegs) (mem : Memory) (pidTgid : UInt64) (slot : Option BitmapAllocation)
    (active : ActiveBitmaps) : Option BitmapAllocation × ActiveBitmaps :=
  match slot with
  | none => (none, active)
  | some output =>
    let bitmapWrapperPtr := ctx.regs 3
    let bitmapPtr := load64 mem 0 bitmapWrapperPtr
    let bitmapKey := { tgid := pidTgid >>> 32, nativePtr := bitmapWrapperPtr }
    -- The result of the update is not looked at.
    let active := (active.update bitmapKey true .noExist).toOption.getD active
    (some { output with
      width := (ctx.regs 4).toUInt32
      height := (ctx.regs 5).toUInt32
      pixelStorageType := load32 mem 0x78 bitmapPtr
      bitmapSize := load32 mem 152 bitmapPtr
      type := 0
      nativePtr := bitmapWrapperPtr }, active)

def applyFreeFunction (ctx : PtRegs) (mem : Memory) (pidTgid : UInt64) (slot : Option BitmapAllocation)
    (active : ActiveBitmaps) : Option BitmapAllocation × ActiveBitmaps :=
  let nativePtr := readUser64 mem (ctx.regs 1 + 16)
  let bitmapKey := { tgid := pidTgid >>> 32, nativePtr }
  if (active.lookup bitmapKey).isNone then (none, active)
  else
    let active := (active.delete bitmapKey).toOption.getD active
    match slot with
    | none => (none, active)
    | some output => (some { output with type := 1, nativePtr }, active)

def activityPerformStart (ctx : PtRegs) (mem : Memory) (slot : Option BitmapAllocation) :
    Option BitmapAllocation := do
  let output ← slot
  let componentNamePtr := readRef mem (ctx.regs 1 + 76)
  let kComponentNameClassOffset := 8
  let intentComponentNameClassPtr := readRef mem (componentNamePtr + kComponentNameClassOffset)
  some { output with
    type := 2
    activityName := recordString mem intentComponentNameClassPtr 128 output.activityName }

/-! ### The handlers -/

namespace BitmapAllocationHandlerV0

def onItem (env : Env) (task : ResolvedTask) (data : BitmapAllocation) : Handling Unit BitmapAllocation PUnit := do
  let width ← lift (tryI32 data.width.toNat)
  let height ← lift (tryI32 data.height.toNat)
  statsWrite env (.bitmapAllocated task.uid width height)

end BitmapAllocationHandlerV0

def bitmapAllocationHandlerV0 : Handler Unit BitmapAllocation where
  mapPath := "/sys/fs/bpf/uprobestats/map_BitmapAllocation_output"
  default := ()
  onItem := BitmapAllocationHandlerV0.onItem
  sameHanded_onItem _ _ _ := (Within.lift _).bind fun _ => (Within.lift _).bind fun _ => sameHanded_call _ _

structure BitmapMetadata where
  uid : Int32
  width : Int32
  height : Int32
  pixelStorageType : Int32
  activityName : String
  deriving DecidableEq

structure BitmapAllocationHandlerV1 where
  bitmaps : AList fun _ : UInt64 => BitmapMetadata := ∅
  maxTotalBitmapSize : Int64 := 0
  currentTotalBitmapSize : Int64 := 0
  bitmapSnapshotAtMaxSize : List BitmapMetadata := []
  activityName : String := ""

def convertToPixelStorageTypeEnum (pixelStorageType : Int32) : PixelStorageType :=
  if pixelStorageType = 0 then .wrappedPixelRef
  else if pixelStorageType = 1 then .heap
  else if pixelStorageType = 2 then .ashmem
  else if pixelStorageType = 3 then .hardware
  else .unspecified

namespace BitmapAllocationHandlerV1

/-- The values of `bitmaps`, in some order. -/
def values (h : BitmapAllocationHandlerV1) : List BitmapMetadata := h.bitmaps.entries.map (·.2)

def takeSnapshot (h : BitmapAllocationHandlerV1) : BitmapAllocationHandlerV1 :=
  if h.currentTotalBitmapSize > h.maxTotalBitmapSize then
    { h with maxTotalBitmapSize := h.currentTotalBitmapSize, bitmapSnapshotAtMaxSize := h.values }
  else h

@[simp] theorem takeSnapshot_bitmaps (h : BitmapAllocationHandlerV1) : h.takeSnapshot.bitmaps = h.bitmaps := by
  unfold takeSnapshot
  split <;> rfl

@[simp] theorem takeSnapshot_currentTotalBitmapSize (h : BitmapAllocationHandlerV1) :
    h.takeSnapshot.currentTotalBitmapSize = h.currentTotalBitmapSize := by
  unfold takeSnapshot
  split <;> rfl

def onAllocation (env : Env) (task : ResolvedTask) (data : BitmapAllocation) :
    Handling BitmapAllocationHandlerV1 BitmapAllocation PUnit := do
  let s ← get
  let width ← lift (tryI32 data.width.toNat)
  let height ← lift (tryI32 data.height.toNat)
  let pixelStorageType ← lift (tryI32 data.pixelStorageType.toNat)
  let metadata := { uid := task.uid, width, height, pixelStorageType, activityName := s.handler.activityName }
  statsWrite env (.bitmapAllocated metadata.uid metadata.width metadata.height)
  modifyHandler fun h => { h with bitmaps := h.bitmaps.insert data.nativePtr metadata }
  let bitmapSize ← lift (tryI64 data.bitmapSize.toNat)
  let s ← get
  let total ← lift (addI64 s.handler.currentTotalBitmapSize bitmapSize)
  modifyHandler fun h => { h with currentTotalBitmapSize := total }
  modifyHandler takeSnapshot

def onDeallocation (data : BitmapAllocation) : Handling BitmapAllocationHandlerV1 BitmapAllocation PUnit := do
  modifyHandler fun h => { h with bitmaps := h.bitmaps.erase data.nativePtr }
  let bitmapSize ← lift (tryI64 data.bitmapSize.toNat)
  let s ← get
  let total ← lift (subI64 s.handler.currentTotalBitmapSize bitmapSize)
  modifyHandler fun h => { h with currentTotalBitmapSize := total }

def onActivityStart (data : BitmapAllocation) : Handling BitmapAllocationHandlerV1 BitmapAllocation PUnit := do
  let activityName ← lift (bytesAsStr data.activityName)
  modifyHandler fun h => { h with activityName }

def onItem (env : Env) (task : ResolvedTask) (data : BitmapAllocation) :
    Handling BitmapAllocationHandlerV1 BitmapAllocation PUnit :=
  if data.type = 0 then onAllocation env task data
  else if data.type = 1 then onDeallocation data
  else if data.type = 2 then onActivityStart data
  else pure ⟨⟩

def writeSnapshot (env : Env) (snapshotId : Int64) (atMaxSize : Bool) (bitmaps : List BitmapMetadata) :
    Handling BitmapAllocationHandlerV1 BitmapAllocation PUnit :=
  bitmaps.forM fun metadata =>
    statsWrite env (.bitmapAllocationSnapshot metadata.uid metadata.width metadata.height
      (convertToPixelStorageTypeEnum metadata.pixelStorageType) snapshotId atMaxSize metadata.activityName)

def onFinished (env : Env) : Handling BitmapAllocationHandlerV1 BitmapAllocation PUnit := do
  let s ← get
  writeSnapshot env (env.snapshotId s.calls) true s.handler.bitmapSnapshotAtMaxSize
  let s ← get
  writeSnapshot env (env.snapshotId s.calls) false s.handler.values

theorem sameHanded_onItem (env : Env) (task : ResolvedTask) (data : BitmapAllocation) :
    Within SameHanded (onItem env task data) := by
  unfold onItem
  split
  · refine Within.get.bind fun _ => (Within.lift _).bind fun _ => (Within.lift _).bind fun _ => ?_
    refine (Within.lift _).bind fun _ => (sameHanded_call _ _).bind fun _ => ?_
    refine (sameHanded_modifyHandler _).bind fun _ => (Within.lift _).bind fun _ => Within.get.bind fun _ => ?_
    exact (Within.lift _).bind fun _ => (sameHanded_modifyHandler _).bind fun _ => sameHanded_modifyHandler _
  · split
    · refine (sameHanded_modifyHandler _).bind fun _ => (Within.lift _).bind fun _ => Within.get.bind fun _ => ?_
      exact (Within.lift _).bind fun _ => sameHanded_modifyHandler _
    · split
      · exact (Within.lift _).bind fun _ => sameHanded_modifyHandler _
      · exact .pure _

theorem sameHanded_onFinished (env : Env) : Within SameHanded (onFinished env) := by
  have hwrite (snapshotId : Int64) (atMaxSize : Bool) (bitmaps : List BitmapMetadata) :
      Within SameHanded (writeSnapshot env snapshotId atMaxSize bitmaps) := .forM fun _ _ => sameHanded_call _ _
  exact Within.get.bind fun _ => (hwrite _ _ _).bind fun _ => Within.get.bind fun _ => hwrite _ _ _

end BitmapAllocationHandlerV1

def bitmapAllocationHandlerV1 : Handler BitmapAllocationHandlerV1 BitmapAllocation where
  mapPath := "/sys/fs/bpf/uprobestats/map_BitmapAllocation_output"
  default := {}
  onItem := BitmapAllocationHandlerV1.onItem
  onFinished := BitmapAllocationHandlerV1.onFinished
  sameHanded_onItem := BitmapAllocationHandlerV1.sameHanded_onItem
  sameHanded_onFinished := BitmapAllocationHandlerV1.sameHanded_onFinished

end UprobeStats
