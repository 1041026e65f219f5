import UprobeStats.BpfLoad.Loader
import Mathlib.Data.List.Sort

/-! What the functions of the loader that read the object leave alone: they make no call, and count what they read
    outside of a buffer. -/

namespace UprobeStats.BpfLoad
open Effect

/-- Nothing has happened in the kernel. -/
def SameKernel (w w' : World) : Prop := w'.calls = w.calls ∧ w'.pins = w.pins ∧ w'.fds = w.fds

instance : Std.Refl SameKernel := ⟨fun _ => ⟨rfl, rfl, rfl⟩⟩

instance : IsTrans World SameKernel :=
  ⟨fun _ _ _ ⟨hcalls, hpins, hfds⟩ ⟨hcalls', hpins', hfds'⟩ =>
    ⟨hcalls'.trans hcalls, hpins'.trans hpins, hfds'.trans hfds⟩⟩

abbrev Reads {α : Type} (x : Prog α) : Prop := Within SameKernel x

/-- A relation that a reader of the file keeps: it makes no step but a failed or a stray read. -/
class ReadFrame (R : World → World → Prop) : Prop extends Std.Refl R, IsTrans World R where
  failbit : ∀ w, R w { w with failbit := true }
  stray : ∀ w, R w { w with strays := w.strays + 1 }

instance : ReadFrame SameKernel where
  failbit _ := ⟨rfl, rfl, rfl⟩
  stray _ := ⟨rfl, rfl, rfl⟩

def StraysLe (w w' : World) : Prop := w.strays ≤ w'.strays

instance : ReadFrame StraysLe where
  refl _ := Nat.le_refl _
  trans _ _ _ := Nat.le_trans
  failbit _ := Nat.le_refl _
  stray _ := Nat.le_succ _

theorem within_tried {α : Type} {R : World → World → Prop} {x : Prog α} (hx : Within R x) : Within R (tried x) := by
  intro s
  have := hx s
  rw [tried, EStateM.run_bind, run_attempt]
  rcases hrun : x.run s with ⟨a, t⟩ | ⟨code | _, t⟩ <;> rwa [hrun] at this

section Reading
variable {platform : Platform} {elfFile : List UInt8} {R : World → World → Prop} [ReadFrame R]

theorem reads_fail {α : Type} {code : Ret} : Within R (fail code : Prog α) := Within.throw _

theorem reads_strayRead {α : Type} {found : Nat → α} : Within R (strayRead found) := fun w => ReadFrame.stray w

theorem reads_strayWrite {outside : Bool} : Within R (strayWrite outside) := by
  intro w
  cases outside with
  | true => exact ReadFrame.stray w
  | false => exact refl_of R w

theorem reads_elementAt {α : Type} {xs : List α} {i : Nat} {beyond : Nat → α} : Within R (elementAt xs i beyond) := by
  unfold elementAt
  cases xs[i]? with
  | some x => exact Within.pure x
  | none => exact reads_strayRead

theorem reads_readAt (offset size : Nat) (readError : Ret) : Within R (readAt elfFile offset size readError) := by
  intro w
  rw [readAt, run_get_bind]
  split
  · exact ReadFrame.failbit w
  · split
    · exact refl_of R w
    · exact ReadFrame.failbit w

theorem reads_readElfHeader : Within R (readElfHeader elfFile) :=
  Within.bind (reads_readAt _ _ _) fun _ => Within.pure _

theorem reads_readSectionHeadersAll : Within R (readSectionHeadersAll elfFile) := by
  refine Within.bind reads_readElfHeader fun eh => ?_
  split
  · exact Within.throw _
  · exact Within.bind (reads_readAt _ _ _) fun _ => Within.pure _

theorem reads_readSection (sh : Elf64Shdr) : Within R (readSection platform elfFile sh) := by
  unfold readSection
  split
  · exact Within.throw _
  · exact reads_readAt _ _ _

theorem reads_readSectionByIdx (id : Nat) : Within R (readSectionByIdx platform elfFile id) :=
  Within.bind reads_readSectionHeadersAll fun _ => Within.bind reads_elementAt fun sh => reads_readSection sh

theorem reads_readSectionHeaderStrtab : Within R (readSectionHeaderStrtab platform elfFile) :=
  Within.bind reads_readElfHeader fun _ => reads_readSectionByIdx _

theorem reads_cStringAt (buffer : List UInt8) (offset : Nat) : Within R (cStringAt platform buffer offset) := by
  unfold cStringAt
  cases Text.untilNul (buffer.drop offset) with
  | some text => exact Within.pure text
  | none => exact Within.bind reads_strayRead fun _ => Within.pure _

theorem reads_getSymName (nameOff : Nat) : Within R (getSymName platform elfFile nameOff) := by
  refine Within.bind reads_readSectionHeaderStrtab fun secStrTab => ?_
  split
  · exact reads_strayRead
  · split
    · exact reads_fail
    · exact reads_cStringAt _ _

theorem reads_findSection (secStrTab name : List UInt8) : ∀ shs : List Elf64Shdr,
    Within R (findSection platform elfFile secStrTab name shs)
  | [] => reads_fail
  | sh :: shs => by
    refine Within.bind (reads_cStringAt _ _) fun secname => ?_
    split
    · exact reads_readSection sh
    · exact reads_findSection secStrTab name shs

theorem reads_readSectionByName (name : List UInt8) : Within R (readSectionByName platform elfFile name) :=
  Within.bind reads_readSectionHeadersAll fun _ => Within.bind reads_readSectionHeaderStrtab fun _ =>
    reads_findSection _ _ _

theorem reads_readSectionByType (type : Nat) : Within R (readSectionByType platform elfFile type) := by
  refine Within.bind reads_readSectionHeadersAll fun shTable => ?_
  cases shTable.find? fun sh => sh.shType = type with
  | some sh => exact reads_readSection sh
  | none => exact reads_fail

theorem reads_readSymTab (sort : Bool) : Within R (readSymTab platform elfFile sort) :=
  Within.bind (reads_readSectionByType _) fun _ => Within.pure _

theorem reads_readProgDefs : Within R (readProgDefs platform elfFile) := by
  refine Within.bind (reads_readSectionByName _) fun pdData => ?_
  split
  · exact reads_fail
  · exact Within.pure _

theorem reads_findSectionIdx (sectionName : List UInt8) : ∀ (i : Nat) (shs : List Elf64Shdr),
    Within R (findSectionIdx platform elfFile sectionName i shs)
  | _, [] => reads_fail
  | i, sh :: shs => by
    refine Within.bind (reads_getSymName _) fun name => ?_
    split
    · exact Within.pure _
    · exact reads_findSectionIdx sectionName (i + 1) shs

theorem reads_readNames : ∀ syms : List Elf64Sym, Within R (readNames platform elfFile syms)
  | [] => Within.pure _
  | sym :: syms => by
    refine Within.bind (within_tried (reads_getSymName _)) fun name => ?_
    cases name with
    | error ret => exact Within.pure _
    | ok name => exact Within.bind (reads_readNames syms) fun _ => Within.pure _

theorem reads_getSectionSymNames (sectionName : List UInt8) (symbolType : Option Nat) :
    Within R (getSectionSymNames platform elfFile sectionName symbolType) := by
  have hfound : Within R (do
      let symtab ← readSymTab platform elfFile true
      let shTable ← readSectionHeadersAll elfFile
      let secIdx ← findSectionIdx platform elfFile sectionName 0 shTable
      pure (symtab.filter fun sym => sym.isNamed secIdx symbolType)) :=
    Within.bind (reads_readSymTab _) fun _ => Within.bind reads_readSectionHeadersAll fun _ =>
      Within.bind (reads_findSectionIdx _ _ _) fun _ => Within.pure _
  refine Within.bind (within_tried hfound) fun found => ?_
  cases found with
  | error ret => exact Within.pure _
  | ok syms => exact reads_readNames syms

theorem reads_checked {α : Type} (result : α × Option Ret) : Within R (checked result) := by
  unfold checked
  cases result.2 with
  | none => exact Within.pure _
  | some ret => exact Within.throw _

theorem reads_getSymNameByIdx (index : Nat) : Within R (getSymNameByIdx platform elfFile index) := by
  refine Within.bind (reads_readSymTab _) fun symtab => ?_
  split
  · exact Within.bind reads_strayRead fun _ => reads_getSymName _
  · split
    · exact reads_fail
    · exact Within.bind reads_elementAt fun _ => reads_getSymName _

theorem reads_findProgDef (pd : List BpfProgDef) (progDefNames : List (List UInt8)) (name : List UInt8) :
    Within R (findProgDef platform pd progDefNames name) := by
  unfold findProgDef
  cases progDefNames.findIdx? (· = name) with
  | none => exact Within.pure _
  | some j => exact Within.bind reads_elementAt fun _ => Within.pure _

theorem reads_readRelData (i : Nat) (next : List Elf64Shdr) (oldName : List UInt8) :
    Within R (readRelData platform elfFile i next oldName) := by
  refine Within.bind reads_elementAt fun sh => Within.bind (reads_getSymName _) fun name => ?_
  split
  · exact reads_readSectionByIdx _
  · exact Within.pure _

theorem reads_readCodeSectionsFrom (allowed : Option (List BpfProgType)) (pd : List BpfProgDef)
    (progDefNames : List (List UInt8)) : ∀ (i : Nat) (shs : List Elf64Shdr),
    Within R (readCodeSectionsFrom platform elfFile allowed pd progDefNames i shs)
  | _, [] => Within.pure _
  | i, sh :: shs => by
    have hrest := reads_readCodeSectionsFrom allowed pd progDefNames (i + 1) shs
    refine Within.bind (reads_getSymName _) fun oldName => ?_
    dsimp only
    split
    · exact hrest
    · split
      · exact reads_fail
      · refine Within.bind (reads_readSectionByIdx _) fun data => ?_
        refine Within.bind (reads_getSectionSymNames _ _) fun result => Within.bind (reads_checked _) fun names => ?_
        cases names with
        | nil => exact Within.pure _
        | cons csSymName _ =>
          refine Within.bind (reads_findProgDef _ _ _) fun progDef => ?_
          split
          · exact hrest
          · exact Within.bind (reads_readRelData _ _ _) fun _ => Within.bind hrest fun _ => Within.pure _

theorem reads_readCodeSections (allowed : Option (List BpfProgType)) :
    Within R (readCodeSections platform elfFile allowed) := by
  refine Within.bind reads_readSectionHeadersAll fun _ => Within.bind reads_readProgDefs fun pd => ?_
  refine Within.bind (reads_getSectionSymNames _ _) fun result => ?_
  split
  · exact Within.bind (reads_checked _) fun _ => reads_readCodeSectionsFrom _ _ _ _ _
  · exact Within.bind (Within.pure _) fun _ => reads_readCodeSectionsFrom _ _ _ _ _

theorem reads_relocate (mapNames : List (List UInt8)) (mapFds : List Int) : ∀ (rels : List Elf64Rel) (data : List UInt8),
    Within R (relocate platform elfFile mapNames mapFds rels data)
  | [], _ => Within.pure _
  | rel :: rels, data => by
    refine Within.bind (within_tried (reads_getSymNameByIdx _)) fun symName => ?_
    cases symName with
    | error ret => exact Within.pure _
    | ok symName =>
      dsimp only
      cases mapNames.findIdx? (· = symName) with
      | none => exact reads_relocate mapNames mapFds rels data
      | some j =>
        exact Within.bind reads_elementAt fun fd => Within.bind reads_strayWrite fun _ =>
          reads_relocate mapNames mapFds rels _

theorem reads_relocateSections (mapNames : List (List UInt8)) (mapFds : List Int) : ∀ css : List CodeSection,
    Within R (relocateSections platform elfFile mapNames mapFds css)
  | [] => Within.pure _
  | cs :: css => by
    refine Within.bind (reads_relocate _ _ _ _) fun ⟨data, through⟩ => ?_
    dsimp only
    split
    · exact Within.bind (reads_relocateSections mapNames mapFds css) fun _ => Within.pure _
    · exact Within.pure _

theorem reads_applyMapRelo (mapFds : List Int) (cs : List CodeSection) :
    Within R (applyMapRelo platform elfFile mapFds cs) := by
  refine Within.bind (reads_getSectionSymNames _ _) fun ⟨mapNames, ret⟩ => ?_
  cases ret with
  | some ret => exact Within.pure _
  | none => exact reads_relocateSections _ _ _

theorem reads_licenseString (license : List UInt8) : Within R (licenseString platform license) := by
  unfold licenseString
  split
  · exact Within.throw _
  · exact reads_cStringAt _ _

theorem reads_readLicense : Reads (readLicense platform elfFile) :=
  Within.bind (within_tried (reads_readSectionByName _)) fun _ =>
    Within.bind (Within.modify fun _ => ⟨rfl, rfl, rfl⟩) fun _ => reads_readSectionByName _

end Reading

/-! ### Building objects -/

def strtab (strings : List String) : List UInt8 := strings.flatMap fun s => Text.utf8 s ++ [0]

def nameOffset (strings : List String) (name : String) : Nat := (strtab (strings.takeWhile (· ≠ name))).length

def Elf64Shdr.encode (sh : Elf64Shdr) : List UInt8 :=
  Bytes.toLe 4 sh.shName ++ Bytes.toLe 4 sh.shType ++ List.replicate 16 0 ++ Bytes.toLe 8 sh.shOffset ++
    Bytes.toLe 8 sh.shSize ++ List.replicate 24 0

def Elf64Sym.encode (sym : Elf64Sym) : List UInt8 :=
  Bytes.toLe 4 sym.stName ++ [UInt8.ofNat sym.stInfo, 0] ++ Bytes.toLe 2 sym.stShndx ++ Bytes.toLe 8 sym.stValue ++
    List.replicate 8 0

def Elf64Rel.encode (rel : Elf64Rel) : List UInt8 := Bytes.toLe 8 rel.rOffset ++ Bytes.toLe 8 rel.rInfo

def BpfProgDef.encode (progDef : BpfProgDef) : List UInt8 :=
  Bytes.toLe 4 progDef.uid.toNat ++ Bytes.toLe 4 progDef.gid.toNat ++ Bytes.toLe 4 progDef.minKver.toNat ++
    Bytes.toLe 4 progDef.maxKver.toNat ++ [if progDef.optional then 1 else 0] ++ List.replicate 75 0

def BpfMapDef.encode (mapDef : BpfMapDef) : List UInt8 :=
  Bytes.toLe 4 mapDef.type.toNat ++ Bytes.toLe 4 mapDef.keySize.toNat ++ Bytes.toLe 4 mapDef.valueSize.toNat ++
    Bytes.toLe 4 mapDef.maxEntries.toNat ++ Bytes.toLe 4 mapDef.mapFlags.toNat ++ Bytes.toLe 4 mapDef.zero.toNat ++
    Bytes.toLe 4 mapDef.gid.toNat ++ Bytes.toLe 4 mapDef.mode.toNat ++ List.replicate 8 0 ++
    Bytes.toLe 4 mapDef.minKver.toNat ++ Bytes.toLe 4 mapDef.maxKver.toNat ++ List.replicate 64 0 ++
    [if mapDef.shared then 1 else 0, 0, 0, 0] ++ Bytes.toLe 4 mapDef.uid.toNat

structure ElfSection where
  name : String
  type : Nat
  data : List UInt8

/-- The headers of sections whose data lie one after the other from an offset on. -/
def sectionHeaders (strings : List String) : Nat → List ElfSection → List UInt8
  | _, [] => []
  | offset, s :: ss =>
    Elf64Shdr.encode ⟨nameOffset strings s.name, s.type, offset, s.data.length⟩ ++
      sectionHeaders strings (offset + s.data.length) ss

/-- An object: its header, the data of its sections and their headers. Section 0 holds the strings. -/
def image (strings : List String) (sections : List ElfSection) : List UInt8 :=
  let sections := ⟨".strtab", 3, strtab strings⟩ :: sections
  let data := sections.flatMap (·.data)
  List.replicate 40 0 ++ Bytes.toLe 8 (64 + data.length) ++ List.replicate 10 0 ++ Bytes.toLe 2 64 ++
    Bytes.toLe 2 sections.length ++ Bytes.toLe 2 0 ++ data ++ sectionHeaders strings 64 sections

/-- An object with one program, `p`, for every kernel. -/
def oneProgram : List UInt8 :=
  let strings := [".strtab", "license", "progs", "uprobe/p", ".symtab", "p", "p_def"]
  image strings [
    ⟨"license", 1, Text.utf8 "GPL" ++ [0]⟩,
    ⟨"progs", 1, BpfProgDef.encode ⟨0, 0, 0, 0xFFFFFFFF, false⟩⟩,
    ⟨"uprobe/p", 1, [0x95, 0, 0, 0, 0, 0, 0, 0]⟩,
    ⟨".symtab", shtSymtab, Elf64Sym.encode ⟨nameOffset strings "p_def", 1, 2, 0⟩ ++
      Elf64Sym.encode ⟨nameOffset strings "p", sttFunc, 3, 0⟩⟩]

def SymLe (a b : Elf64Sym) : Prop := a.stValue ≤ b.stValue

instance : DecidableRel SymLe := fun a b => inferInstanceAs (Decidable (a.stValue ≤ b.stValue))
instance : Std.Total SymLe := ⟨fun a b => Nat.le_total a.stValue b.stValue⟩
instance : IsTrans Elf64Sym SymLe := ⟨fun _ _ _ h h' => Nat.le_trans h h'⟩

/-- A kernel that no call fails in. -/
def quietPlatform : Platform where
  kernelVersion := 0x06010000
  pageSize := 4096
  fuseProgType := 0
  fails _ := none
  newFd calls := calls.length
  allocates size := size < 2 ^ 32
  stray := {
    shdr _ := ⟨0, 0, 0, 0⟩
    sym _ := ⟨0, 0, 0, 0⟩
    progDef _ := ⟨0, 0, 0, 0, false⟩
    mapDef _ := ⟨0, 0, 0, 0, 0, 0, 0, 0, 0, 0, false, 0⟩
    fd _ := 0
    text _ := [] }
  sort syms := syms.insertionSort SymLe
  perm_sort syms := List.perm_insertionSort SymLe syms
  sorted_sort syms := List.pairwise_insertionSort SymLe syms

end UprobeStats.BpfLoad
