import UprobeStats.Lib.Bytes
import UprobeStats.Lib.Circular
import UprobeStats.Lib.Fifo

/-! The BPF ring buffer: `BpfRingbufBase` of `bpf/BpfRingbuf.h` as the reader, and the kernel's producer
    side, which reserves, fills, commits and discards samples. Every access to the shared memory is a
    step of its own, so a run interleaves the loop of `ConsumeAll` with any producer steps. -/

namespace UprobeStats.BpfRingbuf
open Circular Fifo

/-! ### Headers -/

def busyBit : UInt32 := 0x80000000

def discardBit : UInt32 := 0x40000000

def hdrSz : UInt32 := 8

/-- Rounds len by clearing bitmask, adding header, and aligning to 8 bytes. -/
def roundLength (len : UInt32) : UInt32 :=
  let len := len &&& ~~~(busyBit ||| discardBit)
  let len := len + hdrSz
  (len + 7) &&& ~~~7

/-- The bytes that the kernel takes for a sample: header and value, rounded up to a multiple of 8. -/
def rounded (len : UInt32) : Nat := (len.toNat + 8 + 7) / 8 * 8

/-! ### State -/

structure Geometry where
  bits : Nat
  bits_le : bits ≤ 28
  valueSize : UInt64

def Geometry.maxEntries (g : Geometry) : Nat := 2 ^ g.bits

def Geometry.posMask (g : Geometry) : UInt64 := UInt64.ofNat (g.maxEntries - 1)

/-- A reservation: where its header is, the length asked for, and the bytes now in its value. -/
structure Sample where
  pos : UInt64
  len : UInt32
  bytes : List UInt8
  deriving DecidableEq

/-- Where the reader stands between two accesses to the shared memory. `seen` is the number of samples
    reserved when the call read the producer position. -/
inductive Reader where
  | closed
  | opened
  | sampled (prodPos : UInt32) (seen : Nat)
  | consuming (prodPos : UInt32) (consPos : UInt64) (count seen : Nat)
  | committed (prodPos : UInt32) (consPos : UInt64) (length : UInt32) (count seen : Nat)
  | called (prodPos : UInt32) (consPos : UInt64) (count seen : Nat)
  deriving DecidableEq

def Reader.running : Reader → Bool
  | .closed | .opened => false
  | .sampled .. | .consuming .. | .committed .. | .called .. => true

/-- What `ConsumeAll` hands out: a value to the callback, an error for a value of unexpected size, the
    number of messages consumed. -/
inductive Event where
  | delivered (value : List UInt8)
  | sizeError (length : UInt32)
  | returned (count seen : Nat)
  deriving DecidableEq

/-- The shared memory and the reader. `samples` (the reservations made so far) and `events` (what
    `ConsumeAll` has handed out) are history: no step of the reader looks at them. -/
structure Ring where
  data : Nat → UInt8
  producerPos : UInt64
  consumerPos : UInt64
  samples : List (Slot Sample) := []
  reader : Reader := .closed
  events : List Event := []

def Ring.header (g : Geometry) (r : Ring) (pos : UInt64) : UInt32 :=
  UInt32.ofNat (Bytes.ofLe (cells (window g.maxEntries r.data pos.toNat) 0 4))

/-- The data area, mapped twice back to back. -/
def Ring.mapped (g : Geometry) (r : Ring) : Nat → UInt8 := fun a => r.data (a % g.maxEntries)

def Ring.storeAt (g : Geometry) (r : Ring) (pos : UInt64) (bs : List UInt8) : Ring :=
  { r with data := store g.maxEntries r.data pos.toNat bs }

/-! ### The reader -/

/-- One access of `ConsumeAll` to the shared memory, with the local computation up to the next one. -/
def Ring.tick (g : Geometry) (r : Ring) : Option Ring :=
  match r.reader with
  | .closed | .opened => none
  | .sampled prodPos seen => some { r with reader := .consuming prodPos r.consumerPos 0 seen }
  | .consuming prodPos consPos count seen =>
    let returned := { r with reader := .opened, events := r.events ++ [.returned count seen] }
    if consPos &&& 0xFFFFFFFF != prodPos.toUInt64 then
      -- Find the start of the entry for this read (wrapping is done here).
      let start := (consPos &&& g.posMask).toNat
      let length := UInt32.ofNat (Bytes.ofLe (cells (r.mapped g) start 4))
      -- If the sample isn't committed, we're caught up with the producer.
      if length &&& busyBit ≠ 0 then some returned
      else some { r with reader := .committed prodPos consPos length count seen }
    else some returned
  | .committed prodPos consPos length count seen =>
    let start := (consPos &&& g.posMask).toNat
    let consPos := consPos + (roundLength length).toUInt64
    if length &&& discardBit = 0 then
      if length.toUInt64 ≠ g.valueSize then
        some { r with consumerPos := consPos, reader := .opened, events := r.events ++ [.sizeError length] }
      else
        let value := cells (r.mapped g) (start + hdrSz.toNat) g.valueSize.toNat
        some { r with reader := .called prodPos consPos (count + 1) seen, events := r.events ++ [.delivered value] }
    else some { r with consumerPos := consPos, reader := .consuming prodPos consPos count seen }
  | .called prodPos consPos count seen =>
    some { r with consumerPos := consPos, reader := .consuming prodPos consPos count seen }

/-! ### The producers -/

def Ring.busy? (r : Ring) (index : Nat) : Option Sample :=
  (r.samples[index]?.filter (·.status = .busy)).map (·.value)

/-- Reserve a sample: the header is written busy and the producer position advanced, unless the ring
    would hold more than its size less one. The value keeps the bytes that the ring held there. -/
def Ring.reserve (g : Geometry) (r : Ring) (len pgOff : UInt32) : Ring :=
  if (r.producerPos - r.consumerPos).toNat + rounded len > g.maxEntries - 1 then r
  else
    let hdr := Bytes.toLe 4 (len ||| busyBit).toNat ++ Bytes.toLe 4 pgOff.toNat
    let bytes := cells (window g.maxEntries r.data r.producerPos.toNat) 8 len.toNat
    { r.storeAt g r.producerPos hdr with
      producerPos := r.producerPos + UInt64.ofNat (rounded len)
      samples := r.samples ++ [⟨⟨r.producerPos, len, bytes⟩, .busy⟩] }

def Ring.write (g : Geometry) (r : Ring) (index : Nat) (bytes : List UInt8) : Option Ring := do
  let x ← r.busy? index
  if bytes.length = x.len.toNat then
    some { r.storeAt g (x.pos + 8) bytes with samples := r.samples.set index ⟨{ x with bytes }, .busy⟩ }
  else none

/-- The producer of a busy sample commits or discards it: the header loses its busy bit, and a discard
    sets the discard bit. -/
def Ring.settle (g : Geometry) (r : Ring) (index : Nat) (discard : Bool) : Option Ring := do
  let x ← r.busy? index
  let hdr := r.header g x.pos &&& ~~~busyBit
  let hdr := if discard then hdr ||| discardBit else hdr
  some { r.storeAt g x.pos (Bytes.toLe 4 hdr.toNat) with
    samples := r.samples.set index ⟨x, if discard then .discarded else .committed⟩ }

/-! ### Runs -/

inductive Action where
  | reserve (len pgOff : UInt32)
  | write (index : Nat) (bytes : List UInt8)
  | commit (index : Nat)
  | discard (index : Nat)
  | create
  | consumeAll
  | tick
  | destroy

def Ring.step (g : Geometry) (r : Ring) : Action → Option Ring
  | .reserve len pgOff => some (r.reserve g len pgOff)
  | .write index bytes => r.write g index bytes
  | .commit index => r.settle g index false
  | .discard index => r.settle g index true
  | .create => if r.reader = .closed then some { r with reader := .opened } else none
  | .consumeAll =>
    if r.reader = .opened then
      some { r with reader := .sampled r.producerPos.toUInt32 r.samples.length }
    else none
  | .tick => r.tick g
  | .destroy => if r.reader = .opened then some { r with reader := .closed } else none

def Ring.empty (pos : UInt64) (data : Nat → UInt8) : Ring := { data, producerPos := pos, consumerPos := pos }

/-- The rings that some interleaving of producer steps and `Create`/`ConsumeAll`/destroy cycles reaches. -/
def Reachable (g : Geometry) (pos : UInt64) (data : Nat → UInt8) : Ring → Prop :=
  Steps.Reachable (Ring.step g) (Ring.empty pos data)

end UprobeStats.BpfRingbuf
