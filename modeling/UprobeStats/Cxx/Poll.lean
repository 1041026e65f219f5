import UprobeStats.GenericInstrumentation
import UprobeStats.Lib.Text

/-! The threads of the C++ program: `doPoll` of `UprobeStats.cpp`. -/

namespace UprobeStats.Cxx
open Text

def kGenericBpfMapDetail : String := "GenericInstrumentation_call_detail"
def kGenericBpfMapTimestamp : String := "GenericInstrumentation_call_timestamp"
def kUpdateDeviceIdleTempAllowlistMap : String := "ProcessManagement_update_device_idle_temp_allowlist_records"
def kProcessManagementMap : String := "ProcessManagement_output_buf"

/-- The loop has a branch for the records of the map. -/
def isSupported (mapPath : String) : Bool :=
  contains mapPath kGenericBpfMapDetail || contains mapPath kGenericBpfMapTimestamp ||
    contains mapPath kUpdateDeviceIdleTempAllowlistMap || contains mapPath kProcessManagementMap

/-- What `doPoll` writes for a timestamp. -/
def callTimestampEvent (taskConfig : Task) (value : CallTimestamp) : Option StatsEvent :=
  taskConfig.statsdLoggingConfig.map fun statsdLoggingConfig =>
    { atomId := (statsdLoggingConfig.atomId.getD 0).toInt32.toUInt32
      values := [.int32 value.event.toInt32, .int64 value.timestampNs.toInt64] }

inductive PollOutput where
  | pollRingBuf (mapPath : String) (timeoutMs : Int32)
  | writeEvent (event : StatsEvent)
  deriving DecidableEq

/-- One turn of the loop: the reading of the clock that the time left is computed from, what the poll returns,
    and the reading that the loop tests next. The readings are nanoseconds since the start. -/
structure PollTurn (T : Type) where
  read : Nat
  values : List T
  now : Nat
  deriving DecidableEq

/-- `duration_cast` drops what is below a millisecond, and `static_cast<int>` what is above 32 bits. -/
def timeoutMs (duration : Int) (read : Nat) : Int32 := Int32.ofInt ((duration - read).tdiv 1000000)

section Loop
variable {T : Type} (event : T → Option StatsEvent) (mapPath : String) (duration : Int)

/-- The loop over the turns that the device gives it, from the reading that it tests first. -/
def doPollFrom : Nat → List (PollTurn T) → List PollOutput
  | _, [] => []
  | now, turn :: turns =>
    if now < duration ∧ isSupported mapPath then
      .pollRingBuf mapPath (timeoutMs duration turn.read) :: (turn.values.filterMap event).map .writeEvent ++
        doPollFrom turn.now turns
    else []

end Loop

def durationNanos (taskConfig : Task) : Int := (taskConfig.durationSeconds.getD 0).toInt * 1000000000

/-- What a thread does with its map; `event` is what the branch for the records of the map writes. -/
def doPoll {T : Type} (event : Task → T → Option StatsEvent) (mapPath : String) (taskConfig : Task)
    (turns : List (PollTurn T)) : List PollOutput :=
  doPollFrom (event taskConfig) mapPath (durationNanos taskConfig) 0 turns

end UprobeStats.Cxx
