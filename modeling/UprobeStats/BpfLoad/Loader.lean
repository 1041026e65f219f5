import UprobeStats.BpfLoad.Elf

/-! Creating the maps and loading the programs of an object: the second half of `UprobeStatsBpfLoad.cpp`. -/

namespace UprobeStats.BpfLoad
open Effect

/-! ### Names -/

/-- `substr(0, find_last_of(c))`, which is the whole string when there is no `c`. -/
def upToLast (c : UInt8) (bs : List UInt8) : List UInt8 :=
  if c ∈ bs then ((bs.reverse.dropWhile (· ≠ c)).drop 1).reverse else bs

/-- The name of the file without what follows its final period, and without what follows its last `@` then. -/
def pathToObjName (path : List UInt8) : List UInt8 :=
  upToLast 64 (upToLast 46 ((path.splitOn 47).getLastD []))

def bpfFsPath : List UInt8 := Text.utf8 "/sys/fs/bpf/"

def mapPinLoc (locationPrefix objName : List UInt8) (shared : Bool) (mapName : List UInt8) : Path :=
  bpfFsPath ++ locationPrefix ++ Text.utf8 "map_" ++ (if shared then [] else objName) ++ [95] ++ mapName

def progPinLoc (locationPrefix objName name : List UInt8) : Path :=
  bpfFsPath ++ locationPrefix ++ Text.utf8 "prog_" ++ objName ++ [95] ++ upToLast 36 name

section Loading
variable (platform : Platform)

/-! ### Maps -/

def desiredMaxEntries (mapDef : BpfMapDef) (type : UInt32) : UInt32 :=
  if type = bpfMapTypeRingbuf ∧ mapDef.maxEntries < platform.pageSize then platform.pageSize else mapDef.maxEntries

def mapMatchesExpectations (fd : Int) (mapDef : BpfMapDef) (type : UInt32) : Prog Bool := do
  let fdType ← bpfGetFdMap platform fd .mapType
  let fdKeySize ← bpfGetFdMap platform fd .keySize
  let fdValueSize ← bpfGetFdMap platform fd .valueSize
  let fdMaxEntries ← bpfGetFdMap platform fd .maxEntries
  let fdMapFlags ← bpfGetFdMap platform fd .mapFlags
  let desiredMapFlags :=
    if type = bpfMapTypeDevmap ∨ type = bpfMapTypeDevmapHash then mapDef.mapFlags ||| bpfFRdonlyProg
    else mapDef.mapFlags
  pure (fdType = type.toInt32 ∧ fdKeySize = mapDef.keySize.toInt32 ∧ fdValueSize = mapDef.valueSize.toInt32 ∧
    fdMaxEntries = (desiredMaxEntries platform mapDef type).toInt32 ∧ fdMapFlags = desiredMapFlags.toInt32)

/-- The type that a map is created with: a hash before the kernel knew hashes of devices. -/
def mapType (mapDef : BpfMapDef) : UInt32 :=
  if mapDef.type = bpfMapTypeDevmapHash ∧ platform.kernelVersion < 0x05040000 then bpfMapTypeHash else mapDef.type

/-- `if (err) return -err;` -/
def orFail {α : Type} : Except Errno α → Prog α
  | .ok a => pure a
  | .error err => fail (minus err)

/-- The pin of a new object, with its mode and its owners. -/
def pinNew (fd : Int) (path : Path) (mode uid gid : UInt32) : Prog PUnit := do
  orFail (← bpfFdPin platform fd path)
  orFail (← chmod platform path mode)
  orFail (← chown platform path uid gid)

/-- One turn of the loop of `createMaps`: the descriptor of the map, or -1 for one that is skipped. -/
def createMap (locationPrefix objName : List UInt8) (mapDef : BpfMapDef) (mapName : List UInt8) : Prog Int :=
  if mapDef.zero ≠ 0 then throw .abort
  else if platform.kernelVersion < mapDef.minKver then pure (-1)
  else if mapDef.maxKver ≤ platform.kernelVersion then pure (-1)
  else do
    let type := mapType platform mapDef
    let path := mapPinLoc locationPrefix objName mapDef.shared mapName
    let reuse ← access platform path
    let opened ← match reuse with
      | .ok _ => bpfFdGet platform path
      | .error _ =>
        bpfMapCreate platform
          ⟨type, mapDef.keySize, mapDef.valueSize, desiredMaxEntries platform mapDef type, mapDef.mapFlags⟩
          (mapName.take 15)
    let fd ← orFail opened
    let isMatch ← mapMatchesExpectations platform fd mapDef type
    if !isMatch then fail (minus enotuniq)
    else do
      match reuse with
      | .ok _ => pure ⟨⟩
      | .error _ => pinNew platform fd path mapDef.mode mapDef.uid mapDef.gid
      bpfGetFdId platform fd
      pure fd

/-- The loop of `createMaps` from index `i` on. -/
def createMapsFrom (locationPrefix objName : List UInt8) (md : List BpfMapDef) : Nat → List (List UInt8) → Prog (List Int)
  | _, [] => pure []
  | i, mapName :: mapNames => do
    let mapDef ← elementAt md i platform.stray.mapDef
    let fd ← createMap platform locationPrefix objName mapDef mapName
    let mapFds ← createMapsFrom locationPrefix objName md (i + 1) mapNames
    pure (fd :: mapFds)

variable (elfFile : List UInt8)

def createMaps (elfPath locationPrefix : List UInt8) : Prog (List Int) := do
  match ← tried (readSectionByName platform elfFile (Text.utf8 "maps")) with
  | .error ret => if ret.val = -2 then pure [] else fail ret
  | .ok mdData =>
    if mdData.length % 120 ≠ 0 then fail minusOne
    else do
      let result ← getSectionSymNames platform elfFile (Text.utf8 "maps") none
      let mapNames ← checked result
      createMapsFrom platform locationPrefix (pathToObjName elfPath)
        (decodeArray BpfMapDef.decode 120 (mdData.length / 120) mdData) 0 mapNames

/-! ### Relocation -/

/-- The instruction of a relocation is not one of a section of that size. -/
def reloOutside (size offset : Nat) : Prop :=
  (Int32.ofNat (offset / 8)).toInt < 0 ∨ size < 8 * (Int32.ofNat (offset / 8)).toInt.toNat + 8

instance (size offset : Nat) : Decidable (reloOutside size offset) := inferInstanceAs (Decidable (_ ∨ _))

/-- Writes a descriptor into a 64-bit immediate load. A write outside of the section leaves the section as it is. -/
def applyRelo (insns : List UInt8) (offset : Nat) (fd : Int) : List UInt8 :=
  let insnIndex := (Int32.ofNat (offset / 8)).toInt
  let start := 8 * insnIndex.toNat
  if reloOutside insns.length offset then insns
  else if insns.getD start 0 ≠ 0x18 then insns
  else
    insns.take (start + 1) ++ [(insns.getD (start + 1) 0 &&& 0x0F) ||| 0x10] ++ (insns.drop (start + 2)).take 2 ++
      Bytes.toLe 4 (Int32.ofInt fd).toUInt32.toNat ++ insns.drop (start + 8)

/-- The relocations of a section, as many as an `int` counts of them. -/
def relsOf (relData : List UInt8) : List Elf64Rel :=
  decodeArray Elf64Rel.decode 16 (Int32.ofNat (relData.length / 16)).toInt.toNat relData

/-- The relocations of one section, and whether all of them have been gone through: a symbol without a name
    ends the function. -/
def relocate (mapNames : List (List UInt8)) (mapFds : List Int) : List Elf64Rel → List UInt8 → Prog (List UInt8 × Bool)
  | [], data => pure (data, true)
  | rel :: rels, data => do
    match ← tried (getSymNameByIdx platform elfFile (rel.rInfo / 2 ^ 32)) with
    | .error _ => pure (data, false)
    | .ok symName =>
      match mapNames.findIdx? (· = symName) with
      | none => relocate mapNames mapFds rels data
      | some j => do
        let fd ← elementAt mapFds j platform.stray.fd
        strayWrite (reloOutside data.length rel.rOffset)
        relocate mapNames mapFds rels (applyRelo data rel.rOffset fd)

def relocateSections (mapNames : List (List UInt8)) (mapFds : List Int) :
    List CodeSection → Prog (List CodeSection)
  | [] => pure []
  | cs :: css => do
    let (data, through) ← relocate platform elfFile mapNames mapFds (relsOf cs.relData) cs.data
    if through then do
      let css ← relocateSections mapNames mapFds css
      pure ({ cs with data } :: css)
    else pure ({ cs with data } :: css)

/-- An error only ends the function: the caller does not learn of it. -/
def applyMapRelo (mapFds : List Int) (cs : List CodeSection) : Prog (List CodeSection) := do
  let (mapNames, ret) ← getSectionSymNames platform elfFile (Text.utf8 "maps") none
  match ret with
  | some _ => pure cs
  | none => relocateSections platform elfFile mapNames mapFds cs

/-! ### Programs -/

/-- The running kernel is one that the program is for. -/
def BpfProgDef.inRange (progDef : BpfProgDef) : Bool :=
  decide (progDef.minKver ≤ platform.kernelVersion ∧ platform.kernelVersion < progDef.maxKver)

/-- One turn of the loop of `loadCodeSections`. -/
def loadCodeSection (objName license locationPrefix : List UInt8) (cs : CodeSection) : Prog CodeSection :=
  match cs.progDef with
  | none => fail (minus einval)
  | some progDef =>
    if !progDef.inRange platform then pure cs
    else do
      let path := progPinLoc locationPrefix objName cs.name
      match ← access platform path with
      | .ok _ =>
        match ← bpfFdGet platform path with
        | .error _ => fail minusOne
        | .ok fd => do
          bpfGetFdId platform fd
          pure { cs with progFd := fd }
      | .error _ =>
        match ← bpfProgLoad platform
            ⟨cs.type, platform.kernelVersion, license, cs.data, cs.data.length / 8, cs.name.take 15⟩ with
        | .error _ => if progDef.optional then pure { cs with progFd := -1 } else fail minusOne
        | .ok fd => do
          pinNew platform fd path 0o440 progDef.uid progDef.gid
          bpfGetFdId platform fd
          pure { cs with progFd := fd }

def loadCodeSections (elfPath : List UInt8) (cs : List CodeSection) (license locationPrefix : List UInt8) :
    Prog (List CodeSection) :=
  if platform.kernelVersion = 0 then fail (minus einval)
  else cs.mapM (loadCodeSection platform (pathToObjName elfPath) license locationPrefix)

/-! ### Objects -/

structure Location where
  dir : List UInt8
  locationPrefix : List UInt8
  allowedProgTypes : Option (List BpfProgType)

/-- The only location. -/
def uprobestatsLocation : Location where
  dir := Text.utf8 "/apex/com.android.uprobestats/etc/bpf/uprobestats/"
  locationPrefix := Text.utf8 "uprobestats/"
  allowedProgTypes := some [bpfProgTypeKprobe]

/-- `string(license.data())`. The data of an empty vector is a null pointer, which ends the program. -/
def licenseString (license : List UInt8) : Prog (List UInt8) :=
  if license = [] then throw .abort else cStringAt platform license 0

/-- The license of an object, and whether the object is critical. -/
def readLicense : Prog (List UInt8) := do
  let critical ← tried (readSectionByName platform elfFile (Text.utf8 "critical"))
  modify fun w => { w with isCritical := critical.toBool }
  readSectionByName platform elfFile (Text.utf8 "license")

/-- Loads an object, unless its file cannot be opened. It returns 0 where this returns its list of code
    sections, with their descriptors. -/
def loadProg (elfPath : List UInt8) (elfFile : Option (List UInt8)) (location : Location) : Prog (List CodeSection) := do
  modify fun w => { w with isCritical := false }
  match elfFile with
  | none => fail minusOne
  | some elfFile => do
    let license ← readLicense platform elfFile
    let cs ← readCodeSections platform elfFile location.allowedProgTypes
    let mapFds ← createMaps platform elfFile elfPath location.locationPrefix
    let cs ← applyMapRelo platform elfFile mapFds cs
    let license ← licenseString platform license
    loadCodeSections platform elfPath cs license location.locationPrefix

end Loading

end UprobeStats.BpfLoad
