import UprobeStats.BpfLoad.Platform

/-! Reading an ELF object: the first half of `UprobeStatsBpfLoad.cpp`, up to `readCodeSections`. The file is
    its bytes. Names and other texts are C strings, hence bytes too. -/

namespace UprobeStats.BpfLoad
open Effect

/-! ### Decoding -/

/-- The number in so many bytes at an offset. -/
def field (bs : List UInt8) (offset size : Nat) : Nat := Bytes.ofLe ((bs.drop offset).take size)

def field32 (bs : List UInt8) (offset : Nat) : UInt32 := UInt32.ofNat (field bs offset 4)

def Elf64Ehdr.decode (bs : List UInt8) : Elf64Ehdr where
  eShoff := field bs 40 8
  eShentsize := field bs 58 2
  eShnum := field bs 60 2
  eShstrndx := field bs 62 2

def Elf64Shdr.decode (bs : List UInt8) : Elf64Shdr where
  shName := field bs 0 4
  shType := field bs 4 4
  shOffset := field bs 24 8
  shSize := field bs 32 8

def Elf64Sym.decode (bs : List UInt8) : Elf64Sym where
  stName := field bs 0 4
  stInfo := field bs 4 1
  stShndx := field bs 6 2
  stValue := field bs 8 8

def Elf64Rel.decode (bs : List UInt8) : Elf64Rel where
  rOffset := field bs 0 8
  rInfo := field bs 8 8

def BpfProgDef.decode (bs : List UInt8) : BpfProgDef where
  uid := field32 bs 0
  gid := field32 bs 4
  minKver := field32 bs 8
  maxKver := field32 bs 12
  optional := field bs 16 1 ≠ 0

def BpfMapDef.decode (bs : List UInt8) : BpfMapDef where
  type := field32 bs 0
  keySize := field32 bs 4
  valueSize := field32 bs 8
  maxEntries := field32 bs 12
  mapFlags := field32 bs 16
  zero := field32 bs 20
  gid := field32 bs 24
  mode := field32 bs 28
  minKver := field32 bs 40
  maxKver := field32 bs 44
  shared := field bs 112 1 ≠ 0
  uid := field32 bs 116

/-- An array of elements of one size. -/
def decodeArray {α : Type} (decode : List UInt8 → α) (size count : Nat) (bs : List UInt8) : List α :=
  (List.range count).map fun i => decode ((bs.drop (size * i)).take size)

/-! ### Types of sections -/

def sectionNameTypes : List (List UInt8 × BpfProgType) := [
  (Text.utf8 "kprobe/", bpfProgTypeKprobe),
  (Text.utf8 "kretprobe/", bpfProgTypeKprobe),
  (Text.utf8 "perf_event/", bpfProgTypePerfEvent),
  (Text.utf8 "skfilter/", bpfProgTypeSocketFilter),
  (Text.utf8 "tracepoint/", bpfProgTypeTracepoint),
  (Text.utf8 "uprobe/", bpfProgTypeKprobe),
  (Text.utf8 "uretprobe/", bpfProgTypeKprobe)]

section Reading
variable (platform : Platform)

def getSectionType (name : List UInt8) : BpfProgType :=
  match sectionNameTypes.find? fun snt => snt.1.isPrefixOf name with
  | some snt => snt.2
  | none => if (Text.utf8 "fuse/").isPrefixOf name then platform.fuseProgType else bpfProgTypeUnspec

/-- A null pointer, which stands for no list, allows everything. -/
def isAllowedType (type : BpfProgType) (allowed : Option (List BpfProgType)) : Bool :=
  match allowed with
  | none => true
  | some types => types.any fun t => if t = bpfProgTypeUnspec then type = platform.fuseProgType else type = t

/-! ### The file -/

variable (elfFile : List UInt8)

/-- `seekg` and `read`. Once one of them has failed the stream fails for good. -/
def readAt (offset size : Nat) (readError : Ret) : Prog (List UInt8) := do
  let w ← get
  if w.failbit || decide (2 ^ 63 ≤ offset) then
    set { w with failbit := true }
    fail minusOne
  else if offset + size ≤ elfFile.length || size = 0 then pure ((elfFile.drop offset).take size)
  else
    set { w with failbit := true }
    fail readError

def readElfHeader : Prog Elf64Ehdr := do
  let bs ← readAt elfFile 0 64 minusOne
  pure (.decode bs)

/-- What larger entries than those of 64 bytes write behind the table. -/
def Elf64Ehdr.overruns (eh : Elf64Ehdr) (fileSize : Nat) : Prop :=
  eh.eShoff < 2 ^ 63 ∧ 64 * eh.eShnum < min (eh.eShnum * eh.eShentsize) (fileSize - eh.eShoff)

instance (eh : Elf64Ehdr) (fileSize : Nat) : Decidable (eh.overruns fileSize) := inferInstanceAs (Decidable (_ ∧ _))

/-- Entries of another size than 64 are read one after the other all the same. Those that do not fit the table run over
    the heap, which ends the program, and what is missing is zero. -/
def readSectionHeadersAll : Prog (List Elf64Shdr) := do
  let eh ← readElfHeader elfFile
  if eh.overruns elfFile.length then throw .abort
  else do
    let bs ← readAt elfFile eh.eShoff (eh.eShnum * eh.eShentsize) (minus enomem)
    pure (decodeArray Elf64Shdr.decode 64 eh.eShnum bs)

/-- The data of a section. A size that no vector has, or that there is no memory for, ends the program. -/
def readSection (sh : Elf64Shdr) : Prog (List UInt8) :=
  if 2 ^ 63 ≤ sh.shSize ∨ (elfFile.length < sh.shSize ∧ platform.allocates sh.shSize = false) then throw .abort
  else readAt elfFile sh.shOffset sh.shSize minusOne

def readSectionByIdx (id : Nat) : Prog (List UInt8) := do
  let shTable ← readSectionHeadersAll elfFile
  let sh ← elementAt shTable id platform.stray.shdr
  readSection platform elfFile sh

def readSectionHeaderStrtab : Prog (List UInt8) := do
  let eh ← readElfHeader elfFile
  readSectionByIdx platform elfFile eh.eShstrndx

/-- The C string at an offset of a buffer; without a zero it goes on behind the buffer. -/
def cStringAt (buffer : List UInt8) (offset : Nat) : Prog (List UInt8) :=
  match Text.untilNul (buffer.drop offset) with
  | some text => pure text
  | none => do
    let beyond ← strayRead platform.stray.text
    pure (buffer.drop offset ++ beyond)

/-- Get name from offset in strtab. The offset is an `int`, so a large one lies before the buffer. -/
def getSymName (nameOff : Nat) : Prog (List UInt8) := do
  let secStrTab ← readSectionHeaderStrtab platform elfFile
  if 2 ^ 31 ≤ nameOff then strayRead platform.stray.text
  else if secStrTab.length ≤ nameOff then fail minusOne
  else cStringAt platform secStrTab nameOff

def findSection (secStrTab name : List UInt8) : List Elf64Shdr → Prog (List UInt8)
  | [] => fail minusTwo
  | sh :: shs => do
    let secname ← cStringAt platform secStrTab sh.shName
    if secname = name then readSection platform elfFile sh else findSection secStrTab name shs

def readSectionByName (name : List UInt8) : Prog (List UInt8) := do
  let shTable ← readSectionHeadersAll elfFile
  let secStrTab ← readSectionHeaderStrtab platform elfFile
  findSection platform elfFile secStrTab name shTable

def readSectionByType (type : Nat) : Prog (List UInt8) := do
  let shTable ← readSectionHeadersAll elfFile
  match shTable.find? fun sh => sh.shType = type with
  | some sh => readSection platform elfFile sh
  | none => fail minusTwo

def shtSymtab : Nat := 2
def sttFunc : Nat := 2

def readSymTab (sort : Bool) : Prog (List Elf64Sym) := do
  let secData ← readSectionByType platform elfFile shtSymtab
  let syms := decodeArray Elf64Sym.decode 24 (secData.length / 24) secData
  pure (if sort then platform.sort syms else syms)

def readProgDefs : Prog (List BpfProgDef) := do
  let pdData ← readSectionByName platform elfFile (Text.utf8 "progs")
  if pdData.length % 92 ≠ 0 then fail minusOne else pure (decodeArray BpfProgDef.decode 92 (pdData.length / 92) pdData)

/-! ### Names of symbols -/

/-- The index of the first section of a name. -/
def findSectionIdx (sectionName : List UInt8) : Nat → List Elf64Shdr → Prog Nat
  | _, [] => fail minusOne
  | i, sh :: shs => do
    let name ← getSymName platform elfFile sh.shName
    if name = sectionName then pure i else findSectionIdx sectionName (i + 1) shs

/-- The names of some symbols, up to one that cannot be read. -/
def readNames : List Elf64Sym → Prog (List (List UInt8) × Option Ret)
  | [] => pure ([], none)
  | sym :: syms => do
    match ← tried (getSymName platform elfFile sym.stName) with
    | .error ret => pure ([], some ret)
    | .ok name => do
      let (names, ret) ← readNames syms
      pure (name :: names, ret)

def Elf64Sym.isNamed (sym : Elf64Sym) (secIdx : Nat) (symbolType : Option Nat) : Bool :=
  (symbolType = none || symbolType = some (sym.stInfo % 16)) && sym.stShndx = secIdx

/-- The names, and the return code when it is not zero: a caller may use the names that it has got by then. -/
def getSectionSymNames (sectionName : List UInt8) (symbolType : Option Nat) :
    Prog (List (List UInt8) × Option Ret) := do
  let found ← tried do
    let symtab ← readSymTab platform elfFile true
    let shTable ← readSectionHeadersAll elfFile
    let secIdx ← findSectionIdx platform elfFile sectionName 0 shTable
    pure (symtab.filter fun sym => sym.isNamed secIdx symbolType)
  match found with
  | .error ret => pure ([], some ret)
  | .ok syms => readNames platform elfFile syms

/-- `if (ret) return ret;` -/
def checked {α : Type} (result : α × Option Ret) : Prog α :=
  match result.2 with
  | some ret => fail ret
  | none => pure result.1

def getSymNameByIdx (index : Nat) : Prog (List UInt8) := do
  let symtab ← readSymTab platform elfFile false
  if 2 ^ 31 ≤ index then do
    let sym ← strayRead platform.stray.sym
    getSymName platform elfFile sym.stName
  else if symtab.length ≤ index then fail minusOne
  else do
    let sym ← elementAt symtab index platform.stray.sym
    getSymName platform elfFile sym.stName

/-! ### Code sections -/

/-- A program, with its descriptor once it is loaded. -/
structure CodeSection where
  type : BpfProgType
  name : List UInt8
  data : List UInt8
  relData : List UInt8
  progDef : Option BpfProgDef
  progFd : Int := -1
  deriving DecidableEq

/-- The definition under a name, or none. -/
def findProgDef (pd : List BpfProgDef) (progDefNames : List (List UInt8)) (name : List UInt8) :
    Prog (Option BpfProgDef) :=
  match progDefNames.findIdx? (· = name) with
  | none => pure none
  | some j => do
    let progDef ← elementAt pd j platform.stray.progDef
    pure (some progDef)

/-- The relocations of a section: the next section, when it has the name for it. -/
def readRelData (i : Nat) (next : List Elf64Shdr) (oldName : List UInt8) : Prog (List UInt8) := do
  let sh ← elementAt next 0 platform.stray.shdr
  let name ← getSymName platform elfFile sh.shName
  if name = Text.utf8 ".rel" ++ oldName then readSectionByIdx platform elfFile (i + 1) else pure []

/-- The loop over the sections from index `i` on. -/
def readCodeSectionsFrom (allowed : Option (List BpfProgType)) (pd : List BpfProgDef)
    (progDefNames : List (List UInt8)) : Nat → List Elf64Shdr → Prog (List CodeSection)
  | _, [] => pure []
  | i, sh :: shs => do
    let oldName ← getSymName platform elfFile sh.shName
    let ptype := getSectionType platform oldName
    if ptype = bpfProgTypeUnspec then readCodeSectionsFrom allowed pd progDefNames (i + 1) shs
    else if !isAllowedType platform ptype allowed then fail minusOne
    else do
      let data ← readSectionByIdx platform elfFile i
      let result ← getSectionSymNames platform elfFile oldName (some sttFunc)
      let csSymNames ← checked result
      match csSymNames with
      -- A section without a function ends the loop, with success.
      | [] => pure []
      | csSymName :: _ => do
        let progDef ← findProgDef platform pd progDefNames (csSymName ++ Text.utf8 "_def")
        if data = [] then readCodeSectionsFrom allowed pd progDefNames (i + 1) shs
        else do
          let relData ← readRelData platform elfFile i shs oldName
          let name := oldName.map fun b => if b = 47 then 95 else b
          let cs ← readCodeSectionsFrom allowed pd progDefNames (i + 1) shs
          pure ({ type := ptype, name, data, relData, progDef } :: cs)

def readCodeSections (allowed : Option (List BpfProgType)) : Prog (List CodeSection) := do
  let shTable ← readSectionHeadersAll elfFile
  let pd ← readProgDefs platform elfFile
  let result ← getSectionSymNames platform elfFile (Text.utf8 "progs") none
  let progDefNames ← if pd ≠ [] then checked result else pure result.1
  readCodeSectionsFrom platform elfFile allowed pd progDefNames 0 shTable

end Reading

end UprobeStats.BpfLoad
