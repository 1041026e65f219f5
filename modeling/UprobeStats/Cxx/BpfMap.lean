import UprobeStats.Lib.BoundedMap
import UprobeStats.Lib.Effect

/-! The wrapper of `BpfMap.h` around a hash map of the kernel: its accessors, `iterate`, `iterateWithValue` and
    `clear`. -/

namespace UprobeStats.Cxx.BpfMap
open Effect

/-- The map, and what the caller's functions share. -/
structure State (κ ν : Type) (cap : Nat) (σ : Type) where
  map : BoundedMap κ ν cap
  caller : σ

abbrev Prog (κ ν : Type) (cap : Nat) (σ : Type) := EStateM Errno (State κ ν cap σ)

section Accessors
variable {κ ν : Type} {cap : Nat} {σ : Type} [DecidableEq κ]

def getFirstKey : Prog κ ν cap σ κ := do
  let s ← get
  lift (s.map.nextKey none)

def getNextKey (key : κ) : Prog κ ν cap σ κ := do
  let s ← get
  lift (s.map.nextKey (some key))

def readValue (key : κ) : Prog κ ν cap σ ν := do
  let s ← get
  match s.map.lookup key with
  | some value => pure value
  | none => throw .noEntry

def deleteValue (key : κ) : Prog κ ν cap σ PUnit := do
  let s ← get
  match s.map.delete key with
  | .ok map => set { s with map }
  | .error e => throw e

/-! ### Loops -/

/-- The loop of both iterations; `false` when the fuel ends before the loop does. The next key is fetched before the
    current one is visited. -/
def iterateFrom (visit : κ → Prog κ ν cap σ PUnit) : Nat → Except Errno κ → Prog κ ν cap σ Bool
  | 0, _ => pure false
  | fuel + 1, .ok curKey => do
    let nextKey ← attempt (getNextKey curKey)
    visit curKey
    iterateFrom visit fuel nextKey
  | _ + 1, .error e => if e = .noEntry then pure true else throw e

def iterate (fuel : Nat) (filter : κ → Prog κ ν cap σ PUnit) : Prog κ ν cap σ Bool := do
  let curKey ← attempt getFirstKey
  iterateFrom filter fuel curKey

def iterateWithValue (fuel : Nat) (filter : κ → ν → Prog κ ν cap σ PUnit) : Prog κ ν cap σ Bool := do
  let curKey ← attempt getFirstKey
  iterateFrom (fun key => do
    let curValue ← readValue key
    filter key curValue) fuel curKey

/-- `clear`: a key that someone else has deleted is no error. -/
def clear : Nat → Prog κ ν cap σ Bool
  | 0 => pure false
  | fuel + 1 => do
    match ← attempt getFirstKey with
    | .error e => if e = .noEntry then pure true else throw e
    | .ok key => do
      match ← attempt (deleteValue key) with
      | .ok _ => clear fuel
      | .error e => if e = .noEntry then clear fuel else throw e

end Accessors
end UprobeStats.Cxx.BpfMap
