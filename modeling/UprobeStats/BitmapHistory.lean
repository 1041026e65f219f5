import UprobeStats.BitmapAllocation

/-! Looking back over the records that a handler took, newest first: what each of its fields stands for. -/

namespace UprobeStats

/-- What the handler keeps of an allocation made while an activity was on. -/
def BitmapAllocation.metadata (data : BitmapAllocation) (uid : Int32) (activityName : String) : BitmapMetadata where
  uid
  width := Int32.ofInt data.width.toNat
  height := Int32.ofInt data.height.toNat
  pixelStorageType := Int32.ofInt data.pixelStorageType.toNat
  activityName

/-- What a record adds to the sum of the allocated sizes less the freed ones. -/
def BitmapAllocation.delta (data : BitmapAllocation) : Int :=
  if data.type = 0 then data.bitmapSize.toNat else if data.type = 1 then -data.bitmapSize.toNat else 0

namespace BitmapHistory

def total (history : List BitmapAllocation) : Int := (history.map (·.delta)).sum

/-- The largest total so far, which is 0 at the start. -/
def peak : List BitmapAllocation → Int
  | [] => 0
  | data :: earlier => max (total (data :: earlier)) (peak earlier)

/-- The name that the last activity record carried. -/
def activityName : List BitmapAllocation → String
  | [] => ""
  | data :: earlier =>
    if data.type = 2 then ((bytesAsStr data.activityName).toOption).getD "" else activityName earlier

/-- The bitmap at a pointer: that of its last allocation, if it was not freed after it. -/
def held? (uid : Int32) (nativePtr : UInt64) : List BitmapAllocation → Option BitmapMetadata
  | [] => none
  | data :: earlier =>
    if data.nativePtr = nativePtr ∧ data.type = 0 then some (data.metadata uid (activityName earlier))
    else if data.nativePtr = nativePtr ∧ data.type = 1 then none
    else held? uid nativePtr earlier

/-- The last record of a pointer is an allocation. -/
def present (nativePtr : UInt64) : List BitmapAllocation → Bool
  | [] => false
  | data :: earlier =>
    if data.nativePtr = nativePtr ∧ data.type = 0 then true
    else if data.nativePtr = nativePtr ∧ data.type = 1 then false
    else present nativePtr earlier

/-- The size that the last allocation of a pointer carried. -/
def lastSize (nativePtr : UInt64) : List BitmapAllocation → Nat
  | [] => 0
  | data :: earlier =>
    if data.nativePtr = nativePtr ∧ data.type = 0 then data.bitmapSize.toNat else lastSize nativePtr earlier

end BitmapHistory
end UprobeStats
